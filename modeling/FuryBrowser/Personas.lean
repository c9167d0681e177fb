import FuryBrowser.JsonTree
import FuryBrowser.Machines

/-!
# A persona with everything in it

The catalogue's entry of a machine, and a profile's changes to it. Whether the machine can
exist is seen from a part of the entry; a change replaces a copy's fields, and the copy is
judged as a whole.
-/

namespace FuryBrowser.Personas

open JsonTree
open Machines (Shared CanvasMode)

/-- A number in binary64. -/
inductive F64 where
  | finite (q : ℚ)
  | infinite (negative : Bool)
  | nan
  deriving DecidableEq, Repr

namespace F64

/-- Its value, of a number. -/
def value? : F64 → Option ℚ
  | finite q => some q
  | _ => none

@[simp] theorem value?_finite (q : ℚ) : (finite q).value? = some q := rfl

/-- `Value::from`: what is not a number is `null`. -/
def json : F64 → Json
  | finite q => .num q
  | _ => .null

/-- `(lo..=hi).contains`. -/
def within (lo hi : ℚ) : F64 → Bool
  | finite q => lo ≤ q && q ≤ hi
  | _ => false

/-- `(x - y).abs() > 1e-9`. -/
def apart : F64 → F64 → Bool
  | finite a, finite b => Machines.f64 (1 / 10 ^ 9) < Machines.abs64 (Machines.f64 (a - b))
  | nan, _ => false
  | _, nan => false
  | infinite s, infinite t => s ≠ t
  | _, _ => true

end F64

/-- The operating system. -/
structure PersonaOs where
  /-- `Windows`, `macOS` or `Android`. -/
  name : String
  version : String
  /-- `x86_64` or `arm64`. -/
  arch : String
  /-- The user agent, with a place for the version of Chrome. -/
  userAgentTemplate : String
  /-- `navigator.platform`. -/
  platform : String
  /-- `Sec-CH-UA-Platform`. -/
  chPlatform : String
  chPlatformVersion : String
  chArchitecture : String
  chBitness : String

/-- What WebGPU reports. -/
structure PersonaWebGpu where
  vendor : String
  architecture : String
  device : String
  description : String
  limits : List (String × F64)
  features : List String

/-- The GPU. -/
structure PersonaGpu where
  /-- `UNMASKED_VENDOR_WEBGL`. -/
  webglVendor : String
  /-- `UNMASKED_RENDERER_WEBGL`. -/
  webglRenderer : String
  webglParams : List (String × Json)
  webglExtensions : List String
  webgl1Extensions : List String
  webgl2Extensions : List String
  shaderPrecision : List (String × String)
  webgpu : Option PersonaWebGpu

/-- The screen, in logical pixels. -/
structure PersonaScreen where
  width : ℕ
  height : ℕ
  availWidth : ℕ
  availHeight : ℕ
  colorDepth : ℕ
  devicePixelRatio : F64
  availTop : Option ℕ

/-- What Chrome draws around a page. -/
structure PersonaChromeMetrics where
  outerMinusInnerHeight : ℕ
  outerMinusInnerWidth : ℕ
  scrollbarWidth : ℕ

/-- The processor. -/
structure PersonaCpu where
  cores : ℕ
  model : Option String

/-- The sound device. -/
structure PersonaAudio where
  sampleRate : ℕ
  baseLatency : F64
  outputLatency : F64

/-- The handset of an Android persona. -/
structure PersonaMobile where
  /-- `Sec-CH-UA-Model`. -/
  model : String
  /-- `phone` or `tablet`. -/
  formFactor : String
  /-- `cellular` or `wifi`. -/
  connection : String
  /-- The locales its speech engine speaks. -/
  voices : List String

/-- A machine of the catalogue. -/
structure Persona where
  id : String
  /-- Its share of the population. -/
  weight : F64
  /-- Where the numbers came from. -/
  source : Option String
  contributedBy : Option String
  machine : Option String
  os : PersonaOs
  gpu : PersonaGpu
  screen : PersonaScreen
  chromeMetrics : PersonaChromeMetrics
  cpu : PersonaCpu
  memoryGb : ℕ
  maxTouchPoints : ℕ
  fonts : List String
  audio : PersonaAudio
  voices : List String
  /-- The kinds of its `media_devices`. -/
  mediaDevices : List String
  /-- The handset, on Android. -/
  mobile : Option PersonaMobile

namespace Persona

variable (p : Persona)

/-- What `validate` looks at, with the weight and the ratio of pixels as numbers. -/
def facts (weight ratio : ℚ) : Machines.Persona where
  id := p.id
  weight := weight
  os := ⟨p.os.name, p.os.platform, p.os.chPlatform, p.os.userAgentTemplate⟩
  gpu := ⟨p.gpu.webglRenderer, p.gpu.webgpu.map PersonaWebGpu.vendor⟩
  screen := ⟨p.screen.width, p.screen.height, p.screen.availWidth, p.screen.availHeight,
    p.screen.colorDepth, ratio⟩
  scrollbarWidth := p.chromeMetrics.scrollbarWidth
  cores := p.cpu.cores
  memoryGb := p.memoryGb
  maxTouchPoints := p.maxTouchPoints
  sampleRate := p.audio.sampleRate
  fonts := p.fonts
  mobile := p.mobile.map fun m => ⟨m.model, m.formFactor, m.connection⟩

/-- The persona as a machine. A weight that is not a number is no share, and no system
reports a ratio that is not a number: `validate` refuses both. -/
def checked : Option Machines.Persona :=
  p.weight.value?.bind fun weight =>
    p.screen.devicePixelRatio.value?.map fun ratio => p.facts weight ratio

/-- `validate`. -/
def validate (s : Shared) : Bool := p.checked.any (·.validate s)

/-- `is_android`. -/
def isAndroid : Bool := p.os.name = "Android"

/-- `is_phone`. -/
def isPhone : Bool := p.isAndroid && p.mobile.any (·.formFactor = "phone")

/-- A valid persona is a machine that can exist. -/
theorem checked_of_validate {s : Shared} (h : p.validate s) :
    ∃ weight ratio, p.weight = .finite weight ∧ p.screen.devicePixelRatio = .finite ratio ∧
      (p.facts weight ratio).validate s := by
  unfold validate checked at h
  cases hw : p.weight with
  | infinite n => simp [hw, F64.value?] at h
  | nan => simp [hw, F64.value?] at h
  | finite weight =>
    cases hr : p.screen.devicePixelRatio with
    | infinite n => simp [hw, hr, F64.value?] at h
    | nan => simp [hw, hr, F64.value?] at h
    | finite ratio => exact ⟨weight, ratio, rfl, rfl, by simpa [hw, hr, F64.value?] using h⟩

end Persona

/-- A screen instead of the persona's. -/
structure ScreenOverride where
  width : ℕ
  height : ℕ
  devicePixelRatio : F64
  deriving DecidableEq, Repr

/-- A position instead of the exit's. -/
structure GeoOverride where
  latitude : F64
  longitude : F64
  deriving DecidableEq, Repr

/-- What a profile pins about its machine. -/
structure MachineOverrides where
  uiLocale : Option String := none
  screen : Option ScreenOverride := none
  cores : Option ℕ := none
  memoryGb : Option ℕ := none
  /-- The machine whose GPU it takes. -/
  gpu : Option String := none
  geolocation : Option GeoOverride := none
  canvas : Option CanvasMode := none
  deriving DecidableEq, Repr

/-- Why the changes are refused. -/
inductive Refusal where
  /-- The GPU is another system's. -/
  | otherSystem (donor theirs ours : String)
  /-- There is no such machine. -/
  | noMachine (donor : String)
  /-- A phone's screen comes with the phone. -/
  | phoneScreen (id : String) (width height : ℕ)
  /-- No monitor has the size. -/
  | notMonitor (width height : ℕ)
  /-- Chrome's interface does not ship in the language. -/
  | notShipped (uiLocale : String)
  /-- The place is not on Earth. -/
  | notOnEarth (latitude longitude : F64)
  /-- What `validate` says of the result. -/
  | notValid
  deriving DecidableEq, Repr

namespace MachineOverrides

variable (o : MachineOverrides) (base : Persona)

/-- The GPU, and why it cannot be taken. -/
def gpuOf (catalogue : List Persona) : PersonaGpu × List Refusal :=
  match o.gpu with
  | none => (base.gpu, [])
  | some id =>
    match catalogue.find? fun d => d.id = id with
    | none => (base.gpu, [.noMachine id])
    | some donor =>
      if donor.os.name ≠ base.os.name then
        (base.gpu, [.otherSystem id donor.os.name base.os.name])
      else (donor.gpu, [])

/-- The screen, with what the persona's own system reserves of it. -/
def screenOf : PersonaScreen × List Refusal :=
  match o.screen with
  | none => (base.screen, [])
  | some s =>
    if base.isAndroid then
      (base.screen,
        if s.width ≠ base.screen.width || s.height ≠ base.screen.height ||
            s.devicePixelRatio.apart base.screen.devicePixelRatio then
          [.phoneScreen base.id base.screen.width base.screen.height]
        else [])
    else if s.width < 640 || 7680 < s.width || s.height < 480 || 4320 < s.height then
      (base.screen, [.notMonitor s.width s.height])
    else
      let reservedH := base.screen.height - base.screen.availHeight
      let reservedW := base.screen.width - base.screen.availWidth
      ({ base.screen with
        width := s.width
        height := s.height
        availWidth := s.width - reservedW
        availHeight := s.height - reservedH
        devicePixelRatio := s.devicePixelRatio }, [])

/-- What is wrong with the language and the position. -/
def contextRefusals (s : Shared) : List Refusal :=
  (match o.uiLocale with
    | none => []
    | some ui => if ui ∈ s.uiLocales then [] else [.notShipped ui]) ++
  (match o.geolocation with
    | none => []
    | some g =>
      if g.latitude.within (-90) 90 && g.longitude.within (-180) 180 then []
      else [.notOnEarth g.latitude g.longitude])

/-- The copy with every pinned field replaced. -/
def copyOf (catalogue : List Persona) : Persona :=
  { base with
    gpu := (o.gpuOf base catalogue).1
    screen := (o.screenOf base).1
    cpu := { base.cpu with cores := o.cores.getD base.cpu.cores }
    memoryGb := o.memoryGb.getD base.memoryGb }

/-- All that is wrong with the changes. -/
def refusals (s : Shared) (catalogue : List Persona) : List Refusal :=
  (o.gpuOf base catalogue).2 ++ (o.screenOf base).2 ++ o.contextRefusals s ++
    (if (o.copyOf base catalogue).validate s then [] else [.notValid])

/-- `MachineOverrides::apply`. -/
def apply (s : Shared) (catalogue : List Persona) : Except (List Refusal) Persona :=
  if o.refusals base s catalogue = [] then .ok (o.copyOf base catalogue)
  else .error (o.refusals base s catalogue)

variable {o base}

/-- What is accepted is the copy, and nothing is wrong with it. -/
theorem apply_eq_ok {s : Shared} {catalogue : List Persona} {p : Persona}
    (h : o.apply base s catalogue = .ok p) :
    p = o.copyOf base catalogue ∧ (o.gpuOf base catalogue).2 = [] ∧ (o.screenOf base).2 = [] ∧
      p.validate s := by
  unfold apply at h
  split at h
  next hnone =>
    obtain rfl : o.copyOf base catalogue = p := by simpa using h
    simp only [refusals, List.append_eq_nil_iff] at hnone
    obtain ⟨⟨⟨hgpu, hscreen⟩, -⟩, hvalid⟩ := hnone
    refine ⟨rfl, hgpu, hscreen, ?_⟩
    by_contra hv
    simp [hv] at hvalid
  next => cases h

end MachineOverrides

end FuryBrowser.Personas
