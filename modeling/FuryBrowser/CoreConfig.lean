import FuryBrowser.Personas
import FuryBrowser.TextBytes
import Mathlib.Data.List.Destutter
import Mathlib.Data.String.Basic

/-!
# The core's configuration

A profile's seed and its persona are all that the core is told from. The configuration is a
literal with one assignment after another, for what the persona knows besides; the changes of
a profile leave out what the core is to take from the machine. A launch is refused where a
name the core reads is missing.
-/

namespace FuryBrowser.CoreConfig

open JsonTree Personas TextBytes
open AgentDisk (utf8)

/-- What is not the persona's: it comes from the proxy, and the build. -/
structure ProfileContext where
  timezone : String
  languages : List String
  uiLocale : String
  /-- Latitude and longitude. -/
  geolocation : Option (F64 × F64)
  chromeMajor : ℕ
  chromeFullVersion : String

section Derivation

/-- SplitMix64. -/
def mix (z : UInt64) : UInt64 :=
  let z := z + 0x9e3779b97f4a7c15
  let z := (z ^^^ (z >>> 30)) * 0xbf58476d1ce4e5b9
  let z := (z ^^^ (z >>> 27)) * 0x94d049bb133111eb
  z ^^^ (z >>> 31)

/-- The seed of one purpose. -/
def subSeed (seed : UInt64) (purpose : String) : ℕ :=
  (mix ((utf8 purpose).foldl (fun h byte => mix (h ^^^ byte.toUInt64)) seed) &&&
    0x7fffffff).toNat

/-- `GREASEY_CHARS`. -/
def greaseyChars : List String := [" ", "(", ":", "-", ".", "/", ")", ";", "=", "?", "_"]

/-- `GREASED_VERSIONS`. -/
def greasedVersions : List String := ["8", "99", "24"]

/-- `ORDERS`, each with the entry that comes to a position: `out[order[i]] = listed[i]`. -/
def orders : List (List ℕ) := [[0, 1, 2], [0, 2, 1], [1, 0, 2], [1, 2, 0], [2, 0, 1], [2, 1, 0]]

/-- `chrome_brand_list`. -/
def chromeBrandList (major : ℕ) (version : String) (full : Bool) : List String :=
  let brand := "Not" ++ greaseyChars.getD (major % 11) "" ++ "A" ++
    greaseyChars.getD ((major + 1) % 11) "" ++ "Brand"
  let greased := greasedVersions.getD (major % 3) ""
  let greased := if full then greased ++ ".0.0.0" else greased
  let listed := [brand ++ "/" ++ greased, "Chromium/" ++ version, "Google Chrome/" ++ version]
  let order := orders.getD (major % 6) []
  (listed.zip order).foldl (fun out entry => out.set entry.2 entry.1) ["", "", ""]

/-- `str::replace`. -/
def replaceAll (old new : Text) : Text → Text
  | [] => []
  | c :: rest =>
    if old.isPrefixOf (c :: rest) && old ≠ [] then
      new ++ replaceAll old new (rest.drop (old.length - 1))
    else c :: replaceAll old new rest
termination_by text => text.length
decreasing_by all_goals simp [List.length_drop]; try omega

/-- The user agent of a version of Chrome. -/
def userAgent (template : String) (major : ℕ) : String :=
  .ofList (replaceAll "\x7bCHROME_MAJOR\x7d".toList (toString major).toList template.toList)

/-- `PROBED`: the families a capture measures. -/
def probed : List String :=
  ["Bahnschrift", "Calibri", "Cambria", "Candara", "Consolas", "Constantia",
    "Corbel", "Ebrima", "Gadugi", "Leelawadee UI", "Malgun Gothic",
    "Microsoft JhengHei", "Microsoft YaHei", "MS Gothic", "MV Boli",
    "Nirmala UI", "Segoe UI", "Segoe UI Emoji", "Segoe UI Variable",
    "Sitka", "Sylfaen", "Tahoma", "Yu Gothic",
    "Al Bayan", "American Typewriter", "Apple Chancery", "Apple Color Emoji",
    "AppleGothic", "Avenir", "Avenir Next", "Baskerville", "Big Caslon",
    "Chalkboard", "Chalkduster", "Cochin", "Copperplate", "Didot",
    "Futura", "Geneva", "Gill Sans", "Helvetica Neue", "Herculanum",
    "Hoefler Text", "Lucida Grande", "Marker Felt", "Menlo", "Monaco",
    "Optima", "Papyrus", "Phosphate", "Rockwell", "SF Pro", "Skia",
    "Snell Roundhand", "Zapfino",
    "Arial", "Arial Black", "Comic Sans MS", "Courier New", "Georgia",
    "Impact", "Times New Roman", "Trebuchet MS", "Verdana", "Webdings",
    "Wingdings", "Roboto", "Open Sans", "Inter"]

/-- `MAC_ONLY`. -/
def macOnly : List String :=
  ["Helvetica", "Times", "Courier", "PingFang SC", "PingFang TC", "PingFang HK",
    "Hiragino Sans", "Hiragino Kaku Gothic ProN", "Hiragino Mincho ProN",
    "Hiragino Sans GB", "Apple SD Gothic Neo", "Apple Symbols", "Heiti SC",
    "Heiti TC", "STHeiti", "Songti SC", "Songti TC", "Kaiti SC", "Thonburi",
    "Kohinoor Devanagari", "Kohinoor Bangla", "Kailasa", "Noteworthy",
    "Savoye LET", "Luminari", "Trattatello", "SignPainter", "Bradley Hand",
    "Charter", "Iowan Old Style", "Palatino", "Seravek", "Superclarendon",
    "SF Mono", "SF Pro Text", "SF Pro Display", "New York", "Galvji",
    "Academy Engraved LET", "Party LET", "Krungthep", "Sathu", "Silom"]

/-- `WINDOWS_ONLY`. -/
def windowsOnly : List String :=
  ["Segoe UI Symbol", "Segoe UI Historic", "Segoe Print", "Segoe Script",
    "Segoe MDL2 Assets", "Segoe Fluent Icons", "Lucida Console",
    "Lucida Sans Unicode", "MS Sans Serif", "MS Serif",
    "MS PGothic", "MS UI Gothic", "Meiryo", "Meiryo UI", "SimSun", "NSimSun",
    "SimHei", "KaiTi", "FangSong", "Microsoft Himalaya", "Microsoft New Tai Lue",
    "Microsoft PhagsPa", "Microsoft Tai Le", "Microsoft Yi Baiti",
    "Mongolian Baiti", "Myanmar Text", "Javanese Text", "Ink Free",
    "HoloLens MDL2 Assets", "Marlett", "Franklin Gothic Medium", "Gabriola",
    "Palatino Linotype", "Batang", "Gulim", "Dotum", "Gungsuh",
    "Cascadia Code", "Cascadia Mono", "Yu Mincho", "Leelawadee"]

/-- `fonts::hidden`: what was probed and is absent, and the other system's own, sorted. -/
def hidden (os : String) (present : List String) : List String :=
  let has (f : String) := present.any fun p => p.toLower = f.toLower
  let other :=
    if os = "Windows" then macOnly
    else if os = "macOS" then windowsOnly
    else if os = "Android" then macOnly ++ windowsOnly
    else []
  (((probed ++ other).filter (!has ·)).mergeSort fun a b => !decide (b < a)).destutter (· ≠ ·)

/-- `js_heap_limit`. -/
def jsHeapLimit (memoryGb : ℕ) : ℕ :=
  if memoryGb ≤ 2 then 1073741824 else if memoryGb ≤ 4 then 2197815296 else 4294705152

/-- `js_heap_limit_android`. -/
def jsHeapLimitAndroid (memoryGb : ℕ) : ℕ :=
  if memoryGb ≤ 2 then 1073741824 else if memoryGb ≤ 4 then 2147483648 else 4294967296

/-- An array of strings. -/
def strings (texts : List String) : Json := .arr (texts.map .str)

variable (p : Persona) (seed : UInt64) (ctx : ProfileContext)

/-- The literal the configuration starts as. -/
def literal : Json := .obj [
  ("schema_version", .num 1),
  ("navigator", .obj [
    ("userAgent", .str (userAgent p.os.userAgentTemplate ctx.chromeMajor)),
    ("platform", .str p.os.platform),
    ("languages", strings ctx.languages),
    ("hardwareConcurrency", .num p.cpu.cores),
    ("deviceMemory", .num p.memoryGb),
    ("maxTouchPoints", .num p.maxTouchPoints)]),
  ("clientHints", .obj [
    ("brands", strings (chromeBrandList ctx.chromeMajor (toString ctx.chromeMajor) false)),
    ("fullVersionList", strings (chromeBrandList ctx.chromeMajor ctx.chromeFullVersion true)),
    ("platform", .str p.os.chPlatform),
    ("platformVersion", .str p.os.chPlatformVersion),
    ("architecture", .str p.os.chArchitecture),
    ("bitness", .str p.os.chBitness),
    ("model", .str (p.mobile.elim "" PersonaMobile.model)),
    ("mobile", .bool p.isPhone),
    ("wow64", .bool false),
    ("fullVersion", .str ctx.chromeFullVersion),
    ("formFactors", strings (if p.isPhone then ["Mobile"] else ["Desktop"]))]),
  ("screen", .obj [
    ("width", .num p.screen.width),
    ("height", .num p.screen.height),
    ("availWidth", .num p.screen.availWidth),
    ("availHeight", .num p.screen.availHeight),
    ("availLeft", .num 0),
    ("availTop", .num (p.screen.availTop.getD (if p.os.name = "macOS" then 33 else 0) : ℕ)),
    ("colorDepth", .num p.screen.colorDepth),
    ("devicePixelRatio", p.screen.devicePixelRatio.json),
    ("chromeHeightDelta", .num p.chromeMetrics.outerMinusInnerHeight),
    ("chromeWidthDelta", .num p.chromeMetrics.outerMinusInnerWidth),
    ("scrollbarWidth", .num p.chromeMetrics.scrollbarWidth)]),
  ("gpu", .obj [
    ("webglParams", .obj []),
    ("webglExtensions", strings p.gpu.webglExtensions)]),
  ("audio", .obj [
    ("sampleRate", .num p.audio.sampleRate),
    ("baseLatency", p.audio.baseLatency.json),
    ("outputLatency", p.audio.outputLatency.json)]),
  ("fonts", strings p.fonts),
  ("fontsHidden", strings (hidden p.os.name p.fonts)),
  ("locale", .obj [
    ("timezone", .str ctx.timezone),
    ("locale", .str ctx.uiLocale)]),
  -- Text measurements are the machine's own, and the marker says so.
  ("noise", .obj [
    ("canvasSeed", .num (subSeed seed "canvas")),
    ("audioSeed", .num (subSeed seed "audio")),
    ("clientRects", .str "real"),
    ("deviceIdSalt", .num (subSeed seed "deviceId"))])]

/-- The extensions of each kind of context. -/
def extensionRows : List Assignment :=
  (if p.gpu.webgl1Extensions = [] then []
    else [(["gpu", "webgl1Extensions"], strings p.gpu.webgl1Extensions)]) ++
  (if p.gpu.webgl2Extensions = [] then []
    else [(["gpu", "webgl2Extensions"], strings p.gpu.webgl2Extensions)])

/-- A precision, at its shader and its kind; a name without a dot is passed over. -/
def precisionRow (entry : String × String) : Option Assignment :=
  (splitOnce '.' entry.1.toList).map fun (shader, kind) =>
    ([.ofList shader, .ofList kind], .str entry.2)

/-- The precisions of the shaders. -/
def precision : Json := (Json.obj []).assign (p.gpu.shaderPrecision.filterMap precisionRow)

/-- The parameters of WebGL; its vendor and its renderer are Blink's own. -/
def paramRows : List Assignment :=
  (p.gpu.webglParams.map fun entry => ("gpu" :: ["webglParams", entry.1], entry.2)) ++
  [(["gpu", "webglParams", "VENDOR"], .str "WebKit"),
    (["gpu", "webglParams", "RENDERER"], .str "WebKit WebGL"),
    (["gpu", "webglParams", "UNMASKED_VENDOR_WEBGL"], .str p.gpu.webglVendor),
    (["gpu", "webglParams", "UNMASKED_RENDERER_WEBGL"], .str p.gpu.webglRenderer)]

/-- How many devices of a kind there are. -/
def devices (kind : String) : Json := .num (p.mediaDevices.countP (· = kind))

/-- The starting states and what every profile reports. -/
def fixedRows : List Assignment :=
  [(["automation"], .obj [("hideTraces", .bool true)]),
    (["webrtc"], .obj [("ipHandlingPolicy", .str "disable_non_proxied_udp")]),
    (["battery"], .obj [("charging", .bool true), ("level", .num 1), ("chargingTime", .num 0),
      ("dischargingTime", .num (-1))])]

/-- The switch of a handset, and the voices of its speech engine. -/
def mobileRows (m : PersonaMobile) : List Assignment :=
  (["mobile"], .obj [("enabled", .bool true), ("formFactor", .str m.formFactor),
    ("connectionType", .str m.connection), ("touchSeed", .num (subSeed seed "touch"))]) ::
  if m.voices = [] then [] else [(["speech", "androidVoices"], strings m.voices)]

/-- What is assigned after the literal, in this order. -/
def assignments : List Assignment :=
  extensionRows p ++
  (if p.gpu.shaderPrecision = [] then [] else [(["gpu", "shaderPrecision"], precision p)]) ++
  paramRows p ++
  (if p.voices = [] then [] else [(["speech"], .obj [("voices", strings p.voices)])]) ++
  (if p.mediaDevices = [] then []
    else [(["mediaDevices"], .obj [("audioInputCount", devices p "audioinput"),
      ("audioOutputCount", devices p "audiooutput"),
      ("videoInputCount", devices p "videoinput")])]) ++
  [(["permissions"], .obj [("notifications", .str "prompt"), ("geolocation", .str "prompt")]),
    (["engine"], .obj [("jsHeapSizeLimit", .num
      (if p.isAndroid then jsHeapLimitAndroid p.memoryGb else jsHeapLimit p.memoryGb : ℕ))])] ++
  ctx.geolocation.elim [] (fun place => [(["geolocation"], .obj [("latitude", place.1.json),
    ("longitude", place.2.json), ("accuracy", .num 20000)])]) ++
  fixedRows ++
  p.mobile.elim [] (mobileRows seed) ++
  p.gpu.webgpu.elim [] (fun webgpu => [(["gpu", "webgpu"], .obj [("vendor", .str webgpu.vendor),
    ("architecture", .str webgpu.architecture), ("device", .str webgpu.device),
    ("description", .str webgpu.description),
    ("limits", .obj (webgpu.limits.map fun limit => (limit.1, limit.2.json))),
    ("features", strings webgpu.features)])])

/-- `derive_core_config`. -/
def deriveCoreConfig : Json := (literal p seed ctx).assign (assignments p seed ctx)

end Derivation

section Changes

/-- `MONITOR_KEYS`: what a desktop takes from the monitor it runs on. -/
def monitorKeys : List String :=
  ["width", "height", "availWidth", "availHeight", "availLeft", "availTop", "devicePixelRatio"]

/-- A canvas read back as it is: no seed, and a marker that says so. -/
def realCanvas (noise : List (String × Json)) : List (String × Json) :=
  Json.insert "canvas" (.str "real") (Json.without "canvasSeed" noise)

/-- The monitor's own screen: none of its keys, and a marker. -/
def realScreen (screen : List (String × Json)) : List (String × Json) :=
  Json.insert "size" (.str "real") (monitorKeys.foldl (fun fs key => Json.without key fs) screen)

/-- `MachineOverrides::apply_config`. -/
def applyConfig (o : MachineOverrides) (config : Json) : Json :=
  let config := if o.canvas = some .real then config.edit "noise" realCanvas else config
  let handset := (config.get "mobile").any (!·.isNull)
  if o.screen = none && !handset then config.edit "screen" realScreen else config

end Changes

section Check

/-- A dotted path the core reads; with a dot at its end it is a prefix, and the core
completes it. -/
structure CoreKey where
  /-- The names between the dots. -/
  path : List String
  /-- There is a dot at the end. -/
  isPrefix : Bool := false
  deriving DecidableEq, Repr

/-- A path as it is written. -/
def CoreKey.text (key : CoreKey) : String :=
  ".".intercalate key.path ++ if key.isPrefix then "." else ""

/-- `CORE_CONFIG_KEYS`. -/
def coreConfigKeys : List CoreKey := [
  ⟨["audio", "baseLatency"], false⟩,
  ⟨["audio", "outputLatency"], false⟩,
  ⟨["automation", "hideTraces"], false⟩,
  ⟨["battery", "charging"], false⟩,
  ⟨["battery", "chargingTime"], false⟩,
  ⟨["battery", "dischargingTime"], false⟩,
  ⟨["battery", "level"], false⟩,
  ⟨["clientHints", "formFactors"], false⟩,
  ⟨["clientHints", "mobile"], false⟩,
  ⟨["clientHints", "wow64"], false⟩,
  ⟨["engine", "jsHeapSizeLimit"], false⟩,
  ⟨["fonts"], false⟩,
  ⟨["fontsHidden"], false⟩,
  ⟨["geolocation", "accuracy"], false⟩,
  ⟨["geolocation", "latitude"], false⟩,
  ⟨["geolocation", "longitude"], false⟩,
  ⟨["gpu", "shaderPrecision"], true⟩,
  ⟨["gpu", "webgl1Extensions"], false⟩,
  ⟨["gpu", "webgl2Extensions"], false⟩,
  ⟨["gpu", "webglExtensions"], false⟩,
  ⟨["gpu", "webglParams"], true⟩,
  ⟨["gpu", "webgpu", "architecture"], false⟩,
  ⟨["gpu", "webgpu", "description"], false⟩,
  ⟨["gpu", "webgpu", "device"], false⟩,
  ⟨["gpu", "webgpu", "features"], false⟩,
  ⟨["gpu", "webgpu", "limits"], true⟩,
  ⟨["gpu", "webgpu", "vendor"], false⟩,
  ⟨["locale", "locale"], false⟩,
  ⟨["locale", "timezone"], false⟩,
  ⟨["mediaDevices"], true⟩,
  ⟨["mobile", "connectionType"], false⟩,
  ⟨["mobile", "enabled"], false⟩,
  ⟨["mobile", "touchSeed"], false⟩,
  ⟨["navigator", "deviceMemory"], false⟩,
  ⟨["navigator", "hardwareConcurrency"], false⟩,
  ⟨["navigator", "languages"], false⟩,
  ⟨["navigator", "maxTouchPoints"], false⟩,
  ⟨["navigator", "platform"], false⟩,
  ⟨["navigator", "userAgent"], false⟩,
  ⟨["noise", "audioSeed"], false⟩,
  ⟨["noise", "canvasSeed"], false⟩,
  ⟨["noise", "clientRectsSeed"], false⟩,
  ⟨["permissions"], true⟩,
  ⟨["permissions", "notifications"], false⟩,
  ⟨["screen", "availLeft"], false⟩,
  ⟨["screen", "availTop"], false⟩,
  ⟨["screen", "chromeHeightDelta"], false⟩,
  ⟨["screen", "chromeWidthDelta"], false⟩,
  ⟨["screen", "colorDepth"], false⟩,
  ⟨["screen", "devicePixelRatio"], false⟩,
  ⟨["screen", "height"], false⟩,
  ⟨["screen", "scrollbarWidth"], false⟩,
  ⟨["screen", "width"], false⟩,
  ⟨["speech", "androidVoices"], false⟩,
  ⟨["speech", "voices"], false⟩,
  ⟨["webrtc", "ipHandlingPolicy"], false⟩,
  ⟨["window", "profileName"], false⟩]

/-- `OPTIONAL_BRANCHES`: what may be missing, and the branch that decides. -/
def optionalBranches : List (List String × List CoreKey) := [
  (["gpu", "webgpu"], [
    ⟨["gpu", "webgpu", "architecture"], false⟩,
    ⟨["gpu", "webgpu", "description"], false⟩,
    ⟨["gpu", "webgpu", "device"], false⟩,
    ⟨["gpu", "webgpu", "features"], false⟩,
    ⟨["gpu", "webgpu", "limits"], true⟩,
    ⟨["gpu", "webgpu", "vendor"], false⟩]),
  (["speech"], [⟨["speech", "voices"], false⟩]),
  (["gpu", "webgl1Extensions"], [⟨["gpu", "webgl1Extensions"], false⟩]),
  (["gpu", "webgl2Extensions"], [⟨["gpu", "webgl2Extensions"], false⟩]),
  (["gpu", "shaderPrecision"], [⟨["gpu", "shaderPrecision"], true⟩]),
  (["speech", "androidVoices"], [⟨["speech", "androidVoices"], false⟩]),
  (["mobile"], [
    ⟨["mobile", "connectionType"], false⟩,
    ⟨["mobile", "enabled"], false⟩,
    ⟨["mobile", "touchSeed"], false⟩]),
  (["mediaDevices"], [⟨["mediaDevices"], true⟩]),
  (["geolocation"], [
    ⟨["geolocation", "accuracy"], false⟩,
    ⟨["geolocation", "latitude"], false⟩,
    ⟨["geolocation", "longitude"], false⟩]),
  (["window"], [⟨["window", "profileName"], false⟩])]

/-- `lookup`: what a path leads to, unless it is `null`. -/
def look (config : Json) (path : List String) : Option Json :=
  (config.find path).filter (!·.isNull)

/-- A marker says that something is the machine's own. -/
def isReal (config : Json) (path : List String) : Bool :=
  match look config path with
  | some (.str text) => text = "real"
  | _ => false

/-- What may be missing, since its branch is. -/
def skipped (config : Json) : List CoreKey :=
  (optionalBranches.filter fun branch => (look config branch.1).isNone).flatMap (·.2)

/-- A key may be missing. -/
def excused (config : Json) (key : CoreKey) : Bool :=
  key ∈ skipped config ||
    isReal config ["noise", "canvas"] && key = ⟨["noise", "canvasSeed"], false⟩ ||
    isReal config ["noise", "clientRects"] && key = ⟨["noise", "clientRectsSeed"], false⟩ ||
    isReal config ["screen", "size"] && monitorKeys.any fun k => key = ⟨["screen", k], false⟩

/-- A key is there; at a prefix, an object with something in it. -/
def present (config : Json) (key : CoreKey) : Bool :=
  (look config key.path).any fun v => !key.isPrefix || !v.fields.isEmpty

/-- `check_core_config`. -/
def checkCoreConfig (config : Json) : Except (List String) Unit :=
  let missing := coreConfigKeys.filter fun key => !excused config key && !present config key
  if missing = [] then .ok ()
  else .error (missing.map fun key =>
    "the core reads " ++ key.text ++ ", and this config has no such key")

end Check

end FuryBrowser.CoreConfig

/-!
## The branches of a derived configuration

What a name of the derived configuration leads to: a part of the literal, a part that is
created by an assignment, or, below the GPU, what is assigned to the literal's own.
-/

namespace FuryBrowser.CoreConfig

open JsonTree JsonTree.Json Personas TextBytes

variable {p : Persona} {seed : UInt64} {ctx : ProfileContext}

@[simp] theorem isNull_json (x : F64) : x.json.isNull = x.value?.isNone := by
  cases x <;> rfl

theorem rooted_assignments : rooted (assignments p seed ctx) := by
  unfold assignments extensionRows paramRows fixedRows mobileRows
  simp

/-- The branches that are assigned to. -/
def assigned : List String :=
  ["gpu", "speech", "mediaDevices", "permissions", "engine", "geolocation", "automation",
    "webrtc", "battery", "mobile"]

theorem under_assignments_nil {k : String} (h : ∀ i ∈ assigned, i ≠ k) :
    under k (assignments p seed ctx) = [] := by
  have hspeech := h "speech" (by decide)
  unfold assignments extensionRows paramRows fixedRows mobileRows
  simp [h "gpu" (by decide), hspeech, h "mediaDevices" (by decide),
    h "permissions" (by decide), h "engine" (by decide), h "geolocation" (by decide),
    h "automation" (by decide), h "webrtc" (by decide), h "battery" (by decide),
    h "mobile" (by decide)]

/-- A branch of the literal that nothing is assigned to. -/
theorem get_literal {k : String} (h : ∀ i ∈ assigned, i ≠ k) :
    (deriveCoreConfig p seed ctx).get k = (literal p seed ctx).get k :=
  get_assign_of_under rooted_assignments (under_assignments_nil h)

theorem get_created {k : String} (h : (literal p seed ctx).get k = none) :
    (deriveCoreConfig p seed ctx).get k =
      match under k (assignments p seed ctx) with
      | [] => none
      | (path, v) :: later => some ((null.put path v).assign later) :=
  get_assign_of_none rooted_assignments h

theorem under_speech : under "speech" (assignments p seed ctx) =
    (if p.voices = [] then [] else [([], obj [("voices", strings p.voices)])]) ++
      p.mobile.elim [] fun m =>
        if m.voices = [] then [] else [(["androidVoices"], strings m.voices)] := by
  unfold assignments extensionRows paramRows fixedRows mobileRows
  simp

theorem get_speech : (deriveCoreConfig p seed ctx).get "speech" =
    if p.voices = [] then
      p.mobile.elim none fun m =>
        if m.voices = [] then none else some (obj [("androidVoices", strings m.voices)])
    else some ((obj [("voices", strings p.voices)]).assign
      (p.mobile.elim [] fun m =>
        if m.voices = [] then [] else [(["androidVoices"], strings m.voices)])) := by
  rw [get_created (by simp [literal]), under_speech]
  by_cases hv : p.voices = []
  · cases p.mobile with
    | none => simp [hv]
    | some m =>
      by_cases hm : m.voices = []
      · simp [hv, hm]
      · simp only [hv, hm, if_true, if_false, List.nil_append, Option.elim_some]
        rfl
  · simp [hv]

theorem get_mediaDevices : (deriveCoreConfig p seed ctx).get "mediaDevices" =
    if p.mediaDevices = [] then none
    else some (obj [("audioInputCount", devices p "audioinput"),
      ("audioOutputCount", devices p "audiooutput"),
      ("videoInputCount", devices p "videoinput")]) := by
  rw [get_created (by simp [literal])]
  unfold assignments extensionRows paramRows fixedRows mobileRows
  by_cases hd : p.mediaDevices = [] <;> simp [hd]

theorem get_geolocation : (deriveCoreConfig p seed ctx).get "geolocation" =
    ctx.geolocation.map fun place => obj [("latitude", place.1.json),
      ("longitude", place.2.json), ("accuracy", num 20000)] := by
  rw [get_created (by simp [literal])]
  unfold assignments extensionRows paramRows fixedRows mobileRows
  cases ctx.geolocation <;> simp

theorem get_mobile : (deriveCoreConfig p seed ctx).get "mobile" =
    p.mobile.map fun m => obj [("enabled", bool true), ("formFactor", str m.formFactor),
      ("connectionType", str m.connection), ("touchSeed", num (subSeed seed "touch"))] := by
  rw [get_created (by simp [literal])]
  unfold assignments extensionRows paramRows fixedRows mobileRows
  cases p.mobile <;> simp

theorem get_permissions : (deriveCoreConfig p seed ctx).get "permissions" =
    some (obj [("notifications", str "prompt"), ("geolocation", str "prompt")]) := by
  rw [get_created (by simp [literal])]
  unfold assignments extensionRows paramRows fixedRows mobileRows
  simp

theorem get_engine : (deriveCoreConfig p seed ctx).get "engine" =
    some (obj [("jsHeapSizeLimit", num
      (if p.isAndroid then jsHeapLimitAndroid p.memoryGb else jsHeapLimit p.memoryGb : ℕ))]) := by
  rw [get_created (by simp [literal])]
  unfold assignments extensionRows paramRows fixedRows mobileRows
  simp

theorem get_automation : (deriveCoreConfig p seed ctx).get "automation" =
    some (obj [("hideTraces", bool true)]) := by
  rw [get_created (by simp [literal])]
  unfold assignments extensionRows paramRows fixedRows mobileRows
  simp

theorem get_webrtc : (deriveCoreConfig p seed ctx).get "webrtc" =
    some (obj [("ipHandlingPolicy", str "disable_non_proxied_udp")]) := by
  rw [get_created (by simp [literal])]
  unfold assignments extensionRows paramRows fixedRows mobileRows
  simp

theorem get_battery : (deriveCoreConfig p seed ctx).get "battery" =
    some (obj [("charging", bool true), ("level", num 1), ("chargingTime", num 0),
      ("dischargingTime", num (-1))]) := by
  rw [get_created (by simp [literal])]
  unfold assignments extensionRows paramRows fixedRows mobileRows
  simp

/-- What is assigned to the branch of the GPU. -/
def gpuRows (p : Persona) : List Assignment :=
  (if p.gpu.webgl1Extensions = [] then []
    else [(["webgl1Extensions"], strings p.gpu.webgl1Extensions)]) ++
  (if p.gpu.webgl2Extensions = [] then []
    else [(["webgl2Extensions"], strings p.gpu.webgl2Extensions)]) ++
  (if p.gpu.shaderPrecision = [] then [] else [(["shaderPrecision"], precision p)]) ++
  (p.gpu.webglParams.map fun entry => (["webglParams", entry.1], entry.2)) ++
  [(["webglParams", "VENDOR"], str "WebKit"), (["webglParams", "RENDERER"], str "WebKit WebGL"),
    (["webglParams", "UNMASKED_VENDOR_WEBGL"], str p.gpu.webglVendor),
    (["webglParams", "UNMASKED_RENDERER_WEBGL"], str p.gpu.webglRenderer)] ++
  p.gpu.webgpu.elim [] fun webgpu => [(["webgpu"], obj [("vendor", str webgpu.vendor),
    ("architecture", str webgpu.architecture), ("device", str webgpu.device),
    ("description", str webgpu.description),
    ("limits", obj (webgpu.limits.map fun limit => (limit.1, limit.2.json))),
    ("features", strings webgpu.features)])]

theorem rooted_gpuRows : rooted (gpuRows p) := by
  unfold gpuRows
  simp

/-- The branch of the GPU. -/
def gpuBranch (p : Persona) : Json :=
  (obj [("webglParams", obj []), ("webglExtensions", strings p.gpu.webglExtensions)]).assign
    (gpuRows p)

theorem get_gpu : (deriveCoreConfig p seed ctx).get "gpu" = some (gpuBranch p) := by
  have hunder : under "gpu" (assignments p seed ctx) = gpuRows p := by
    unfold assignments extensionRows paramRows fixedRows mobileRows gpuRows
    simp
  unfold gpuBranch
  rw [← hunder]
  exact get_assign rooted_assignments (by simp [literal])

theorem get_webglExtensions :
    (gpuBranch p).get "webglExtensions" = some (strings p.gpu.webglExtensions) := by
  refine (get_assign_of_under rooted_gpuRows ?_).trans (by simp)
  unfold gpuRows
  simp

theorem get_webgl1Extensions : (gpuBranch p).get "webgl1Extensions" =
    if p.gpu.webgl1Extensions = [] then none else some (strings p.gpu.webgl1Extensions) := by
  refine (get_assign_of_none rooted_gpuRows (by simp)).trans ?_
  unfold gpuRows
  by_cases h : p.gpu.webgl1Extensions = [] <;> simp [h]

theorem get_webgl2Extensions : (gpuBranch p).get "webgl2Extensions" =
    if p.gpu.webgl2Extensions = [] then none else some (strings p.gpu.webgl2Extensions) := by
  refine (get_assign_of_none rooted_gpuRows (by simp)).trans ?_
  unfold gpuRows
  by_cases h : p.gpu.webgl2Extensions = [] <;> simp [h]

theorem get_shaderPrecision : (gpuBranch p).get "shaderPrecision" =
    if p.gpu.shaderPrecision = [] then none else some (precision p) := by
  refine (get_assign_of_none rooted_gpuRows (by simp)).trans ?_
  unfold gpuRows
  by_cases h : p.gpu.shaderPrecision = [] <;> simp [h]

theorem get_webgpu : (gpuBranch p).get "webgpu" =
    p.gpu.webgpu.map fun webgpu => obj [("vendor", str webgpu.vendor),
      ("architecture", str webgpu.architecture), ("device", str webgpu.device),
      ("description", str webgpu.description),
      ("limits", obj (webgpu.limits.map fun limit => (limit.1, limit.2.json))),
      ("features", strings webgpu.features)] := by
  refine (get_assign_of_none rooted_gpuRows (by simp)).trans ?_
  unfold gpuRows
  cases p.gpu.webgpu <;> simp

/-- The parameters of WebGL are never none. -/
theorem get_webglParams : ∃ params, (gpuBranch p).get "webglParams" = some params ∧
    params.fields ≠ [] := by
  have hget : (gpuBranch p).get "webglParams" =
      some ((obj []).assign (under "webglParams" (gpuRows p))) := by
    refine get_assign rooted_gpuRows ?_
    simp
  refine ⟨_, hget, fields_assign_ne_nil ?_ ?_⟩
  · unfold gpuRows
    simp
  · unfold gpuRows
    simp

theorem splitOnce_isSome {mark : Char} {text : Text} :
    (splitOnce mark text).isSome ↔ mark ∈ text := by
  induction text with
  | nil => simp [splitOnce]
  | cons ch rest ih =>
    by_cases hc : ch = mark
    · simp [splitOnce, hc]
    · simp [splitOnce, hc, ih, Ne.symm hc]

theorem isNull_assign_obj (fs : List (String × Json)) {rows : List Assignment}
    (h : rooted rows) : ((obj fs).assign rows).isNull = false := by
  rcases List.eq_nil_or_concat rows with rfl | hrows
  · rfl
  · refine isNull_of_fields (fields_assign_ne_nil h ?_)
    obtain ⟨earlier, a, rfl⟩ := hrows
    simp

theorem rooted_precision : rooted (p.gpu.shaderPrecision.filterMap precisionRow) := by
  refine List.all_eq_true.mpr fun a ha => ?_
  obtain ⟨entry, -, hentry⟩ := List.mem_filterMap.mp ha
  obtain ⟨halves, -, rfl⟩ := Option.map_eq_some_iff.mp hentry
  rfl

theorem isNull_precision : (precision p).isNull = false := isNull_assign_obj [] rooted_precision

/-- A precision is kept if its name has a dot. -/
theorem fields_precision :
    (precision p).fields ≠ [] ↔ ∃ entry ∈ p.gpu.shaderPrecision, '.' ∈ entry.1.toList := by
  have hrow (entry : String × String) : (precisionRow entry).isSome ↔ '.' ∈ entry.1.toList := by
    rw [← splitOnce_isSome, precisionRow, Option.isSome_map]
  have hrows : p.gpu.shaderPrecision.filterMap precisionRow ≠ [] ↔
      ∃ entry ∈ p.gpu.shaderPrecision, '.' ∈ entry.1.toList := by
    simp only [ne_eq, List.filterMap_eq_nil_iff, not_forall, ← hrow,
      Option.isSome_iff_ne_none, exists_prop]
  rw [← hrows]
  constructor
  · intro hfields hnone
    exact hfields (by rw [precision, hnone]; rfl)
  · exact fields_assign_ne_nil rooted_precision

end FuryBrowser.CoreConfig
