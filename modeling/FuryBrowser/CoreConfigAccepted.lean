import FuryBrowser.CoreConfig
import FuryBrowser.PinnedMachines

/-!
# What is derived is accepted

A launch checks the configuration that is derived from its persona. The check passes where
the persona fills every branch it opens: limits for WebGPU, a dotted name among the
precisions of the shaders, voices of its own beside those of a speech engine, and numbers
where the core reads numbers. A profile's changes take nothing from that, and add nothing.
-/

namespace FuryBrowser.CoreConfig

open JsonTree JsonTree.Json Personas TextBytes
open Machines (Shared)

variable {p : Persona} {seed : UInt64} {ctx : ProfileContext} {c c' : Json} {key : CoreKey}

/-- A persona that fills every branch it opens. -/
structure Complete (p : Persona) (ctx : ProfileContext) : Prop where
  limits : ∀ webgpu, p.gpu.webgpu = some webgpu → webgpu.limits ≠ []
  /-- Of the precisions, one has a dot in its name. -/
  dotted : p.gpu.shaderPrecision ≠ [] →
    ∃ entry ∈ p.gpu.shaderPrecision, '.' ∈ entry.1.toList
  /-- With voices of a handset's speech engine, there are others. -/
  voices : p.voices = [] → ∀ m, p.mobile = some m → m.voices = []
  latencies : p.audio.baseLatency.value? ≠ none ∧ p.audio.outputLatency.value? ≠ none
  /-- The place is given in numbers. -/
  place : ∀ lat lng, ctx.geolocation = some (lat, lng) → lat.value? ≠ none ∧ lng.value? ≠ none

section Check

/-- The core has what it looks for under a key, or does not look for it. -/
def Served (c : Json) (key : CoreKey) : Prop := excused c key = true ∨ present c key = true

theorem checkCoreConfig_eq_ok :
    checkCoreConfig c = .ok () ↔ ∀ key ∈ coreConfigKeys, Served c key := by
  unfold checkCoreConfig
  have hfilter : (coreConfigKeys.filter fun key => !excused c key && !present c key) = [] ↔
      ∀ key ∈ coreConfigKeys, Served c key := by
    simp only [List.filter_eq_nil_iff, Bool.and_eq_true, Bool.not_eq_true', not_and, Served,
      Bool.eq_false_iff, ne_eq]
    refine forall₂_congr fun key _ => ?_
    tauto
  by_cases hnone : (coreConfigKeys.filter fun key => !excused c key && !present c key) = []
  · simp only [hnone, if_true, true_iff]
    exact hfilter.mp hnone
  · simp only [hnone, if_false, reduceCtorEq, false_iff]
    exact fun h => hnone (hfilter.mpr h)

theorem mem_skipped : key ∈ skipped c ↔
    ∃ branch ∈ optionalBranches, look c branch.1 = none ∧ key ∈ branch.2 := by
  simp [skipped, and_assoc]

@[simp] theorem look_cons (k : String) (ks : List String) :
    look c (k :: ks) = (c.get k).bind (look · ks) := by
  cases h : c.get k <;> simp [look, h]

@[simp] theorem look_nil : look c [] = if c.isNull then none else some c := by
  cases h : c.isNull <;> simp [look, h]

/-- The keys of one branch. -/
def BranchServed (c : Json) (k : String) : Prop :=
  ∀ key ∈ coreConfigKeys, key.path.head? = some k → Served c key

/-- The branches that the core reads. -/
def branches : List String :=
  ["audio", "automation", "battery", "clientHints", "engine", "fonts", "fontsHidden",
    "geolocation", "gpu", "locale", "mediaDevices", "mobile", "navigator", "noise", "permissions",
    "screen", "speech", "webrtc", "window"]

theorem served_iff_branches :
    (∀ key ∈ coreConfigKeys, Served c key) ↔ ∀ k ∈ branches, BranchServed c k := by
  constructor
  · intro h k _ key hkey _
    exact h key hkey
  · intro h key hkey
    have hhead : ∀ key ∈ coreConfigKeys, ∃ k ∈ branches, key.path.head? = some k := by decide
    obtain ⟨k, hk, hpath⟩ := hhead key hkey
    exact h k hk key hkey hpath

/-- A key outside of the noise and the screen is excused for its branch alone. -/
theorem excused_iff_skipped (hnoise : key.path.head? ≠ some "noise")
    (hscreen : key.path.head? ≠ some "screen") : excused c key = true ↔ key ∈ skipped c := by
  have hcanvas : key ≠ ⟨["noise", "canvasSeed"], false⟩ := by rintro rfl; exact hnoise rfl
  have hrects : key ≠ ⟨["noise", "clientRectsSeed"], false⟩ := by rintro rfl; exact hnoise rfl
  have hmonitor (k : String) : key ≠ ⟨["screen", k], false⟩ := by rintro rfl; exact hscreen rfl
  simp [excused, hcanvas, hrects, hmonitor]

/-- A key of an optional branch may be missing if the branch is. -/
theorem served_optional (branch : List String) (keys : List CoreKey)
    (hbranch : (branch, keys) ∈ optionalBranches) (hkey : key ∈ keys) :
    Served c key ↔ look c branch = none ∨ present c key = true := by
  have hone : ∀ x ∈ optionalBranches, ∀ y ∈ optionalBranches, ∀ key ∈ x.2, key ∈ y.2 →
      x.1 = y.1 := by decide
  have hplain : ∀ x ∈ optionalBranches, ∀ key ∈ x.2,
      key.path.head? ≠ some "noise" ∧ key.path.head? ≠ some "screen" := by decide
  obtain ⟨hnoise, hscreen⟩ := hplain _ hbranch _ hkey
  have hexcused : excused c key = true ↔ look c branch = none := by
    rw [excused_iff_skipped hnoise hscreen, mem_skipped]
    constructor
    · rintro ⟨other, hother, hnone, hin⟩
      rwa [← hone _ hbranch _ hother _ hkey hin] at hnone
    · exact fun hnone => ⟨_, hbranch, hnone, hkey⟩
  rw [Served, hexcused]

/-- An optional branch: it is missing, or all of its keys are there. -/
theorem served_all (branch : List String) (keys : List CoreKey)
    (hbranch : (branch, keys) ∈ optionalBranches) :
    (∀ key ∈ keys, Served c key) ↔ look c branch = none ∨ ∀ key ∈ keys, present c key = true := by
  constructor
  · intro h
    by_cases hnone : look c branch = none
    · exact .inl hnone
    · refine .inr fun key hkey => ?_
      exact ((served_optional branch keys hbranch hkey).mp (h key hkey)).resolve_left hnone
  · rintro (hnone | hpresent) key hkey
    · exact (served_optional branch keys hbranch hkey).mpr (.inl hnone)
    · exact .inr (hpresent key hkey)

theorem branch_groups {k : String} (groups : List (List CoreKey))
    (h : (coreConfigKeys.filter fun key => key.path.head? = some k).Perm groups.flatten) :
    BranchServed c k ↔ ∀ keys ∈ groups, ∀ key ∈ keys, Served c key := by
  have hmem (key : CoreKey) :
      key ∈ coreConfigKeys ∧ key.path.head? = some k ↔ ∃ keys ∈ groups, key ∈ keys := by
    rw [← List.mem_flatten, ← h.mem_iff]
    simp
  constructor
  · intro hserved keys hkeys key hkey
    obtain ⟨hin, hpath⟩ := (hmem key).mpr ⟨keys, hkeys, hkey⟩
    exact hserved key hin hpath
  · intro hserved key hin hpath
    obtain ⟨keys, hkeys, hkey⟩ := (hmem key).mp ⟨hin, hpath⟩
    exact hserved keys hkeys key hkey

/-- A branch that is optional as a whole. -/
theorem branch_optional {k : String} (keys : List CoreKey)
    (hbranch : ([k], keys) ∈ optionalBranches)
    (h : (coreConfigKeys.filter fun key => key.path.head? = some k).Perm keys) :
    BranchServed c k ↔ look c [k] = none ∨ ∀ key ∈ keys, present c key = true := by
  rw [branch_groups [keys] (by simpa using h), List.forall_mem_singleton,
    served_all [k] keys hbranch]

/-- The keys of a branch that are no prefixes. -/
def leaves (k : String) (names : List String) : List CoreKey :=
  names.map fun n => ⟨[k, n], false⟩

/-- A branch is served if every name of it is there. -/
theorem branch_leaves {k : String} {v : Json} (names : List String)
    (h : (coreConfigKeys.filter fun key => key.path.head? = some k).Perm (leaves k names))
    (hget : c.get k = some v) (hnames : ∀ n ∈ names, (v.get n).any (!·.isNull) = true) :
    BranchServed c k := by
  rw [branch_groups [leaves k names] (by simpa using h), List.forall_mem_singleton]
  intro key hkey
  obtain ⟨n, hn, rfl⟩ := List.mem_map.mp hkey
  refine .inr ?_
  obtain ⟨w, hw, hnull⟩ := (Option.any_eq_true _ _).mp (hnames n hn)
  have hnull : w.isNull = false := by simpa using hnull
  simp [present, hget, hw, hnull]

/-- The branches of the literal that nothing can take from. -/
theorem branches_literal : ∀ k ∈ ["clientHints", "fonts", "fontsHidden", "locale", "navigator"],
    BranchServed (deriveCoreConfig p seed ctx) k := by
  have hget : ∀ k ∈ ["clientHints", "fonts", "fontsHidden", "locale", "navigator"],
      (deriveCoreConfig p seed ctx).get k = (literal p seed ctx).get k := by
    have hfree : ∀ k ∈ ["clientHints", "fonts", "fontsHidden", "locale", "navigator"],
        ∀ i ∈ assigned, i ≠ k := by decide
    exact fun k hk => get_literal (hfree k hk)
  simp only [List.forall_mem_cons, List.not_mem_nil, false_imp_iff, implies_true, and_true]
    at hget ⊢
  obtain ⟨hhints, hfonts, hhidden, hlocale, hnavigator⟩ := hget
  refine ⟨?_, ?_, ?_, ?_, ?_⟩
  · refine branch_leaves ["formFactors", "mobile", "wow64"] (by decide)
      (hhints.trans (by simp [literal]; rfl)) ?_
    simp [strings]
  · rw [branch_groups [[⟨["fonts"], false⟩]] (by decide)]
    simp [Served, present, hfonts, literal, strings]
  · rw [branch_groups [[⟨["fontsHidden"], false⟩]] (by decide)]
    simp [Served, present, hhidden, literal, strings]
  · refine branch_leaves ["locale", "timezone"] (by decide)
      (hlocale.trans (by simp [literal]; rfl)) ?_
    simp
  · refine branch_leaves ["deviceMemory", "hardwareConcurrency", "languages", "maxTouchPoints",
      "platform", "userAgent"] (by decide) (hnavigator.trans (by simp [literal]; rfl)) ?_
    simp [strings]

/-- The branches that are assigned for every persona. -/
theorem branches_fixed : ∀ k ∈ ["automation", "battery", "engine", "permissions", "webrtc"],
    BranchServed (deriveCoreConfig p seed ctx) k := by
  simp only [List.forall_mem_cons, List.not_mem_nil, false_imp_iff, implies_true, and_true]
  refine ⟨?_, ?_, ?_, ?_, ?_⟩
  · exact branch_leaves ["hideTraces"] (by decide) get_automation (by simp)
  · exact branch_leaves ["charging", "chargingTime", "dischargingTime", "level"] (by decide)
      get_battery (by simp)
  · exact branch_leaves ["jsHeapSizeLimit"] (by decide) get_engine (by simp)
  · rw [branch_groups [[⟨["permissions"], true⟩, ⟨["permissions", "notifications"], false⟩]]
      (by decide)]
    simp [Served, present, get_permissions]
  · exact branch_leaves ["ipHandlingPolicy"] (by decide) get_webrtc (by simp)

theorem branch_window : BranchServed (deriveCoreConfig p seed ctx) "window" := by
  have hget : (deriveCoreConfig p seed ctx).get "window" = (literal p seed ctx).get "window" :=
    get_literal (by decide)
  rw [branch_optional [⟨["window", "profileName"], false⟩] (by decide) (by decide)]
  simp [hget, literal]

theorem branch_audio : BranchServed (deriveCoreConfig p seed ctx) "audio" ↔
    p.audio.baseLatency.value? ≠ none ∧ p.audio.outputLatency.value? ≠ none := by
  have hget : (deriveCoreConfig p seed ctx).get "audio" = (literal p seed ctx).get "audio" :=
    get_literal (by decide)
  rw [branch_groups [leaves "audio" ["baseLatency", "outputLatency"]] (by decide)]
  simp [leaves, Served, present, excused, mem_skipped, optionalBranches, monitorKeys, hget,
    literal]

theorem branch_mediaDevices : BranchServed (deriveCoreConfig p seed ctx) "mediaDevices" := by
  rw [branch_optional [⟨["mediaDevices"], true⟩] (by decide) (by decide)]
  by_cases hd : p.mediaDevices = [] <;> simp [get_mediaDevices, hd, present]

theorem branch_mobile : BranchServed (deriveCoreConfig p seed ctx) "mobile" := by
  rw [branch_optional [⟨["mobile", "connectionType"], false⟩, ⟨["mobile", "enabled"], false⟩,
    ⟨["mobile", "touchSeed"], false⟩] (by decide) (by decide)]
  cases hm : p.mobile <;> simp [get_mobile, hm, present]

theorem branch_geolocation : BranchServed (deriveCoreConfig p seed ctx) "geolocation" ↔
    ∀ lat lng, ctx.geolocation = some (lat, lng) → lat.value? ≠ none ∧ lng.value? ≠ none := by
  rw [branch_optional [⟨["geolocation", "accuracy"], false⟩, ⟨["geolocation", "latitude"], false⟩,
    ⟨["geolocation", "longitude"], false⟩] (by decide) (by decide)]
  cases hg : ctx.geolocation with
  | none => simp [get_geolocation, hg]
  | some place => simp [get_geolocation, hg, present, Prod.ext_iff]

theorem branch_speech : BranchServed (deriveCoreConfig p seed ctx) "speech" ↔
    (p.voices = [] → ∀ m, p.mobile = some m → m.voices = []) := by
  rw [branch_groups [[⟨["speech", "androidVoices"], false⟩, ⟨["speech", "voices"], false⟩]]
    (by decide), List.forall_mem_singleton, List.forall_mem_cons, List.forall_mem_singleton,
    served_optional ["speech", "androidVoices"] [⟨["speech", "androidVoices"], false⟩]
      (by decide) (by decide),
    served_optional ["speech"] [⟨["speech", "voices"], false⟩] (by decide) (by decide)]
  by_cases hv : p.voices = []
  · cases hm : p.mobile with
    | none => simp [get_speech, hv, hm]
    | some m => by_cases hmv : m.voices = [] <;> simp [get_speech, hv, hm, hmv, strings, present]
  · cases hm : p.mobile with
    | none => simp [get_speech, hv, hm, strings, present]
    | some m => by_cases hmv : m.voices = [] <;> simp [get_speech, hv, hm, hmv, strings, present]

/-- The keys of WebGPU. -/
def webgpuKeys : List CoreKey :=
  [⟨["gpu", "webgpu", "architecture"], false⟩, ⟨["gpu", "webgpu", "description"], false⟩,
    ⟨["gpu", "webgpu", "device"], false⟩, ⟨["gpu", "webgpu", "features"], false⟩,
    ⟨["gpu", "webgpu", "limits"], true⟩, ⟨["gpu", "webgpu", "vendor"], false⟩]

theorem served_webgpu : (∀ key ∈ webgpuKeys, Served (deriveCoreConfig p seed ctx) key) ↔
    ∀ webgpu, p.gpu.webgpu = some webgpu → webgpu.limits ≠ [] := by
  rw [served_all ["gpu", "webgpu"] _ (by decide)]
  cases hw : p.gpu.webgpu with
  | none => simp [get_gpu, get_webgpu, hw]
  | some webgpu => simp [get_gpu, get_webgpu, hw, webgpuKeys, present, strings]

theorem served_shaderPrecision :
    Served (deriveCoreConfig p seed ctx) ⟨["gpu", "shaderPrecision"], true⟩ ↔
      (p.gpu.shaderPrecision ≠ [] → ∃ entry ∈ p.gpu.shaderPrecision, '.' ∈ entry.1.toList) := by
  rw [served_optional ["gpu", "shaderPrecision"] [⟨["gpu", "shaderPrecision"], true⟩]
    (by decide) (by decide), ← fields_precision]
  by_cases hp : p.gpu.shaderPrecision = []
  · simp [get_gpu, get_shaderPrecision, hp]
  · simp [get_gpu, get_shaderPrecision, hp, present, isNull_precision]

theorem branch_gpu : BranchServed (deriveCoreConfig p seed ctx) "gpu" ↔
    (∀ webgpu, p.gpu.webgpu = some webgpu → webgpu.limits ≠ []) ∧
      (p.gpu.shaderPrecision ≠ [] → ∃ entry ∈ p.gpu.shaderPrecision, '.' ∈ entry.1.toList) := by
  have hfirst : Served (deriveCoreConfig p seed ctx) ⟨["gpu", "webgl1Extensions"], false⟩ := by
    rw [served_optional ["gpu", "webgl1Extensions"] [⟨["gpu", "webgl1Extensions"], false⟩]
      (by decide) (by decide)]
    by_cases h : p.gpu.webgl1Extensions = [] <;>
      simp [get_gpu, get_webgl1Extensions, h, present, strings]
  have hsecond : Served (deriveCoreConfig p seed ctx) ⟨["gpu", "webgl2Extensions"], false⟩ := by
    rw [served_optional ["gpu", "webgl2Extensions"] [⟨["gpu", "webgl2Extensions"], false⟩]
      (by decide) (by decide)]
    by_cases h : p.gpu.webgl2Extensions = [] <;>
      simp [get_gpu, get_webgl2Extensions, h, present, strings]
  have hboth : Served (deriveCoreConfig p seed ctx) ⟨["gpu", "webglExtensions"], false⟩ :=
    .inr (by simp [present, get_gpu, get_webglExtensions, strings])
  have hparams : Served (deriveCoreConfig p seed ctx) ⟨["gpu", "webglParams"], true⟩ := by
    obtain ⟨params, hget, hfields⟩ := get_webglParams (p := p)
    exact .inr (by simp [present, get_gpu, hget, isNull_of_fields hfields, hfields])
  rw [branch_groups [webgpuKeys, [⟨["gpu", "shaderPrecision"], true⟩,
    ⟨["gpu", "webgl1Extensions"], false⟩, ⟨["gpu", "webgl2Extensions"], false⟩,
    ⟨["gpu", "webglExtensions"], false⟩, ⟨["gpu", "webglParams"], true⟩]] (by decide),
    List.forall_mem_cons, List.forall_mem_singleton, served_webgpu]
  simp only [List.forall_mem_cons, List.not_mem_nil, false_imp_iff, implies_true, and_true,
    served_shaderPrecision, hfirst, hsecond, hboth, hparams]

/-- What is outside of the noise and the screen does not depend on them. -/
theorem look_congr (h : ∀ k, k ≠ "noise" → k ≠ "screen" → c'.get k = c.get k)
    {path : List String} {k : String} (hpath : path.head? = some k) (hnoise : k ≠ "noise")
    (hscreen : k ≠ "screen") : look c' path = look c path := by
  obtain ⟨ks, rfl⟩ := List.head?_eq_some_iff.mp hpath
  rw [look_cons, look_cons, h k hnoise hscreen]

theorem branch_congr (h : ∀ k, k ≠ "noise" → k ≠ "screen" → c'.get k = c.get k) {k : String}
    (hnoise : k ≠ "noise") (hscreen : k ≠ "screen") :
    BranchServed c' k ↔ BranchServed c k := by
  have hheads : ∀ branch ∈ optionalBranches, ∃ i ∈ branches, branch.1.head? = some i ∧
      i ≠ "noise" ∧ i ≠ "screen" := by decide
  have hskipped : skipped c' = skipped c := by
    unfold skipped
    congr 1
    refine List.filter_congr fun branch hbranch => ?_
    obtain ⟨i, -, hpath, hi, hj⟩ := hheads branch hbranch
    rw [look_congr h hpath hi hj]
  refine forall₃_congr fun key _ hpath => ?_
  have hkn : key.path.head? ≠ some "noise" := by rw [hpath]; simpa using hnoise
  have hks : key.path.head? ≠ some "screen" := by rw [hpath]; simpa using hscreen
  rw [Served, Served, excused_iff_skipped hkn hks, excused_iff_skipped hkn hks, hskipped, present,
    present, look_congr h hpath hnoise hscreen]

/-- The noise of the literal. -/
def noiseFields (seed : UInt64) : List (String × Json) :=
  [("canvasSeed", num (subSeed seed "canvas")), ("audioSeed", num (subSeed seed "audio")),
    ("clientRects", str "real"), ("deviceIdSalt", num (subSeed seed "deviceId"))]

theorem branch_noise (h : c.get "noise" = some (obj (noiseFields seed)) ∨
    c.get "noise" = some (obj (realCanvas (noiseFields seed)))) : BranchServed c "noise" := by
  rw [branch_groups [leaves "noise" ["audioSeed", "canvasSeed", "clientRectsSeed"]] (by decide)]
  rcases h with h | h
  · simp [leaves, Served, present, excused, h, isReal, noiseFields]
  · simp [leaves, Served, present, excused, h, isReal, noiseFields,
      realCanvas, Json.insert, without]

/-- The screen of the literal. -/
def screenFields (p : Persona) : List (String × Json) :=
  [("width", num p.screen.width), ("height", num p.screen.height),
    ("availWidth", num p.screen.availWidth), ("availHeight", num p.screen.availHeight),
    ("availLeft", num 0),
    ("availTop", num (p.screen.availTop.getD (if p.os.name = "macOS" then 33 else 0) : ℕ)),
    ("colorDepth", num p.screen.colorDepth),
    ("devicePixelRatio", p.screen.devicePixelRatio.json),
    ("chromeHeightDelta", num p.chromeMetrics.outerMinusInnerHeight),
    ("chromeWidthDelta", num p.chromeMetrics.outerMinusInnerWidth),
    ("scrollbarWidth", num p.chromeMetrics.scrollbarWidth)]

theorem branch_screen {ratio : ℚ} (hratio : p.screen.devicePixelRatio = .finite ratio)
    (h : c.get "screen" = some (obj (screenFields p)) ∨
      c.get "screen" = some (obj (realScreen (screenFields p)))) : BranchServed c "screen" := by
  rw [branch_groups [leaves "screen" ["availLeft", "availTop", "chromeHeightDelta",
    "chromeWidthDelta", "colorDepth", "devicePixelRatio", "height", "scrollbarWidth", "width"]]
    (by decide)]
  rcases h with h | h
  · simp [leaves, Served, present, excused, h, isReal, screenFields, hratio]
  · simp [leaves, Served, present, excused, h, isReal, screenFields,
      realScreen, Json.insert, without, monitorKeys]

end Check

section Derived

variable (o : MachineOverrides)

theorem get_noise : (deriveCoreConfig p seed ctx).get "noise" = some (obj (noiseFields seed)) := by
  rw [get_literal (by decide)]
  simp [literal, noiseFields]

theorem get_screen : (deriveCoreConfig p seed ctx).get "screen" = some (obj (screenFields p)) := by
  rw [get_literal (by decide)]
  simp [literal, screenFields]

/-- What a profile's changes do: the noise is edited or not, and then the screen. -/
theorem applyConfig_cases (c : Json) :
    ∃ c₁, (c₁ = c.edit "noise" realCanvas ∨ c₁ = c) ∧
      (applyConfig o c = c₁.edit "screen" realScreen ∨ applyConfig o c = c₁) := by
  unfold applyConfig
  dsimp only
  refine ⟨if o.canvas = some .real then c.edit "noise" realCanvas else c, ?_, ?_⟩
  · by_cases hreal : o.canvas = some .real
    · exact .inl (if_pos hreal)
    · exact .inr (if_neg hreal)
  · generalize (if o.canvas = some .real then c.edit "noise" realCanvas else c) = c₁
    split
    · exact .inl rfl
    · exact .inr rfl

theorem get_applyConfig {k : String} (hnoise : k ≠ "noise") (hscreen : k ≠ "screen") :
    (applyConfig o c).get k = c.get k := by
  obtain ⟨c₁, hfirst, hsecond⟩ := applyConfig_cases o c
  have hget : c₁.get k = c.get k := by
    rcases hfirst with rfl | rfl
    · exact get_edit_other hnoise
    · rfl
  rcases hsecond with h | h
  · rw [h, get_edit_other hscreen, hget]
  · rw [h, hget]

/-- The noise after the changes: as it was, or without a seed for the canvas. -/
theorem get_noise_applyConfig {fs : List (String × Json)} (h : c.get "noise" = some (obj fs)) :
    (applyConfig o c).get "noise" = some (obj fs) ∨
      (applyConfig o c).get "noise" = some (obj (realCanvas fs)) := by
  obtain ⟨c₁, hfirst, hsecond⟩ := applyConfig_cases o c
  have hsame : (applyConfig o c).get "noise" = c₁.get "noise" := by
    rcases hsecond with h | h
    · rw [h, get_edit_other (by decide)]
    · rw [h]
  rw [hsame]
  rcases hfirst with rfl | rfl
  · exact .inr (get_edit_self h)
  · exact .inl h

/-- The screen after the changes: as it was, or the monitor's own. -/
theorem get_screen_applyConfig {fs : List (String × Json)} (h : c.get "screen" = some (obj fs)) :
    (applyConfig o c).get "screen" = some (obj fs) ∨
      (applyConfig o c).get "screen" = some (obj (realScreen fs)) := by
  obtain ⟨c₁, hfirst, hsecond⟩ := applyConfig_cases o c
  have hget : c₁.get "screen" = some (obj fs) := by
    rcases hfirst with rfl | rfl
    · rw [get_edit_other (by decide), h]
    · exact h
  rcases hsecond with h | h
  · exact .inr (by rw [h]; exact get_edit_self hget)
  · exact .inl (by rw [h, hget])

/-- With the noise and the screen served, the rest decides. -/
theorem accepted_iff (hout : ∀ k, k ≠ "noise" → k ≠ "screen" →
      c.get k = (deriveCoreConfig p seed ctx).get k)
    (hnoise : BranchServed c "noise") (hscreen : BranchServed c "screen") :
    checkCoreConfig c = .ok () ↔ Complete p ctx := by
  rw [checkCoreConfig_eq_ok, served_iff_branches]
  have hcongr (k : String) (hn : k ≠ "noise") (hs : k ≠ "screen") := branch_congr hout hn hs
  constructor
  · intro h
    have hgpu := branch_gpu.mp ((hcongr "gpu" (by decide) (by decide)).mp (h _ (by decide)))
    exact {
      limits := hgpu.1
      dotted := hgpu.2
      voices := branch_speech.mp ((hcongr _ (by decide) (by decide)).mp (h _ (by decide)))
      latencies := branch_audio.mp ((hcongr _ (by decide) (by decide)).mp (h _ (by decide)))
      place := branch_geolocation.mp ((hcongr _ (by decide) (by decide)).mp (h _ (by decide))) }
  · intro h k hk
    by_cases hn : k = "noise"
    · rwa [hn]
    by_cases hs : k = "screen"
    · rwa [hs]
    rw [hcongr k hn hs]
    simp only [branches, List.mem_cons, List.not_mem_nil, or_false] at hk
    rcases hk with rfl | rfl | rfl | rfl | rfl | rfl | rfl | rfl | rfl | rfl | rfl | rfl | rfl |
      rfl | rfl | rfl | rfl | rfl | rfl
    · exact branch_audio.mpr h.latencies
    · exact branches_fixed _ (by decide)
    · exact branches_fixed _ (by decide)
    · exact branches_literal _ (by decide)
    · exact branches_fixed _ (by decide)
    · exact branches_literal _ (by decide)
    · exact branches_literal _ (by decide)
    · exact branch_geolocation.mpr h.place
    · exact branch_gpu.mpr ⟨h.limits, h.dotted⟩
    · exact branches_literal _ (by decide)
    · exact branch_mediaDevices
    · exact branch_mobile
    · exact branches_literal _ (by decide)
    · exact absurd rfl hn
    · exact branches_fixed _ (by decide)
    · exact absurd rfl hs
    · exact branch_speech.mpr h.voices
    · exact branches_fixed _ (by decide)
    · exact branch_window

theorem derived_accepted_iff {ratio : ℚ} (hratio : p.screen.devicePixelRatio = .finite ratio) :
    checkCoreConfig (deriveCoreConfig p seed ctx) = .ok () ↔ Complete p ctx :=
  accepted_iff (fun _ _ _ => rfl) (branch_noise (.inl get_noise))
    (branch_screen hratio (.inl get_screen))

theorem changed_accepted_iff {ratio : ℚ} (hratio : p.screen.devicePixelRatio = .finite ratio) :
    checkCoreConfig (applyConfig o (deriveCoreConfig p seed ctx)) = .ok () ↔ Complete p ctx :=
  accepted_iff (fun _ hn hs => get_applyConfig o hn hs)
    (branch_noise (get_noise_applyConfig o get_noise))
    (branch_screen hratio (get_screen_applyConfig o get_screen))

/-- For every valid persona, seed and context, and every profile's changes: what is derived
passes the launch's check if and only if the persona fills every branch it opens. -/
theorem accepted_iff_complete (s : Shared) (p : Persona) (hp : p.validate s) (seed : UInt64)
    (ctx : ProfileContext) (o : MachineOverrides) :
    (checkCoreConfig (deriveCoreConfig p seed ctx) = .ok () ↔ Complete p ctx) ∧
      (checkCoreConfig (applyConfig o (deriveCoreConfig p seed ctx)) = .ok () ↔
        Complete p ctx) := by
  obtain ⟨weight, ratio, -, hratio, -⟩ := p.checked_of_validate hp
  exact ⟨derived_accepted_iff hratio, changed_accepted_iff o hratio⟩

/-- A phone whose capture kept the locales of its speech engine. -/
def handset (engineVoices : List String) : Persona where
  id := "android-16-sm-a546b"
  weight := .finite (1 / 100)
  source := some "measured"
  contributedBy := none
  machine := none
  os := ⟨"Android", "16", "arm64", "Mozilla/5.0 (Linux; Android 10; K) Mobile Safari",
    "Linux armv81", "Android", "16.0.0", "", ""⟩
  gpu := ⟨"ARM", "Mali-G68", [], [], [], [], [], none⟩
  screen := ⟨360, 780, 360, 780, 24, .finite 3, some 0⟩
  chromeMetrics := ⟨56, 0, 0⟩
  cpu := ⟨8, none⟩
  memoryGb := 8
  maxTouchPoints := 5
  fonts := ["Roboto"]
  audio := ⟨48000, .finite (1 / 100), .finite (1 / 50)⟩
  voices := []
  mediaDevices := []
  mobile := some ⟨"SM-A546B", "phone", "cellular", engineVoices⟩

/-- An exit in Germany. -/
def german : ProfileContext :=
  ⟨"Europe/Berlin", ["de-DE", "de"], "de", some (.finite 52, .finite 13), 155, "155.0.0.0"⟩

/-- Without those locales the phone is accepted. -/
theorem accepted_iff_complete_handset :
    checkCoreConfig (deriveCoreConfig (handset []) 7 german) = .ok () := by
  refine (accepted_iff_complete bare (handset []) (by decide +kernel) 7 german {}).1.mpr ?_
  refine ⟨nofun, fun h => absurd rfl h, ?_, ⟨nofun, nofun⟩, ?_⟩
  · rintro - m hm
    cases hm
    rfl
  · rintro lat lng h
    cases h
    exact ⟨nofun, nofun⟩

/-- With them it is valid, and its profiles cannot be launched. -/
theorem engine_voices_refused :
    ¬ ∀ (s : Shared) (p : Persona), p.validate s → ∀ (seed : UInt64) (ctx : ProfileContext),
      checkCoreConfig (deriveCoreConfig p seed ctx) = .ok () := by
  intro hall
  have haccepted := hall bare (handset ["de_DE"]) (by decide +kernel) 7 german
  have hratio : (handset ["de_DE"]).screen.devicePixelRatio = .finite 3 := rfl
  have hcomplete : Complete (handset ["de_DE"]) german := by
    rwa [derived_accepted_iff hratio] at haccepted
  exact absurd (hcomplete.voices rfl _ rfl) (by decide)

end Derived

end FuryBrowser.CoreConfig
