import FuryBrowser.AgentDisk
import Mathlib.Algebra.Group.Int.Defs
import Mathlib.Algebra.Group.Nat.Defs
import Mathlib.Data.Rat.Defs

/-!
# Machines that can exist

A persona is the measured configuration of one real machine, and what it says about
itself has to fit together. A profile may override a few of its values, and take the GPU
of another machine from a catalogue; the machine that results is checked like any other.

Numbers with a point are rationals that are rounded to binary64 after each operation. A quotient
is rounded to a whole number over a power of two: whatever the power is, the result is at most the
double of the quotient, and it is not zero if the quotient is one or more.
-/

namespace FuryBrowser.Machines

open AgentDisk (trim)

section Binary64

/-- The quotient, rounded to the nearest number, a tie to the even one. -/
def nearestEven (n d : ℕ) : ℕ :=
  let q := n / d
  if 2 * (n % d) < d || 2 * (n % d) = d && q % 2 = 0 then q else q + 1

/-- The binary64 number nearest to a quotient of two numbers that are not zero. -/
def nearest64 (n d : ℕ) : ℚ :=
  let e : ℤ := (n.log2 : ℤ) - d.log2
  -- The quotient is at least two to this power and less than two to the next.
  let e := if n * 2 ^ (-e).toNat < d * 2 ^ e.toNat then e - 1 else e
  let shift : ℤ := 52 - max e (-1022)
  mkRat (nearestEven (n * 2 ^ shift.toNat) (d * 2 ^ (-shift).toNat) * 2 ^ (-shift).toNat)
    (2 ^ shift.toNat)

/-- Rounding to binary64. -/
def f64 (q : ℚ) : ℚ :=
  if q.num = 0 then 0
  else if q.num < 0 then -nearest64 q.num.natAbs q.den
  else nearest64 q.num.natAbs q.den

/-- `f64::abs`. -/
def abs64 (q : ℚ) : ℚ := if q < 0 then -q else q

/-- `f64::round`, a half away from zero. -/
def round64 (q : ℚ) : ℚ :=
  if q < 0 then -((-q + 1 / 2).floor : ℚ) else ((q + 1 / 2).floor : ℚ)

end Binary64

/-- The operating system of a persona. -/
structure PersonaOs where
  /-- `Windows`, `macOS` or `Android`. -/
  name : String
  /-- `navigator.platform`. -/
  platform : String
  /-- `Sec-CH-UA-Platform`. -/
  chPlatform : String
  userAgentTemplate : String
  deriving DecidableEq, Repr

/-- The GPU of a persona. -/
structure PersonaGpu where
  /-- `UNMASKED_RENDERER_WEBGL`. -/
  webglRenderer : String
  /-- The vendor it has for WebGPU. -/
  webgpuVendor : Option String
  deriving DecidableEq, Repr

/-- The screen of a persona, in logical pixels. -/
structure PersonaScreen where
  width : ℕ
  height : ℕ
  availWidth : ℕ
  availHeight : ℕ
  colorDepth : ℕ
  devicePixelRatio : ℚ
  deriving DecidableEq, Repr

/-- The handset of an Android persona. -/
structure PersonaMobile where
  /-- `Sec-CH-UA-Model`. -/
  model : String
  /-- `phone` or `tablet`. -/
  formFactor : String
  /-- `cellular` or `wifi`. -/
  connection : String
  deriving DecidableEq, Repr

/-- A machine. -/
structure Persona where
  id : String
  /-- Its share of the population. -/
  weight : ℚ
  os : PersonaOs
  gpu : PersonaGpu
  screen : PersonaScreen
  /-- `chrome_metrics.scrollbar_width`. -/
  scrollbarWidth : ℕ
  /-- `cpu.cores`. -/
  cores : ℕ
  memoryGb : ℕ
  maxTouchPoints : ℕ
  /-- `audio.sample_rate`. -/
  sampleRate : ℕ
  fonts : List String
  /-- The handset, on Android. -/
  mobile : Option PersonaMobile
  deriving DecidableEq, Repr

/-- What the shared crate is built with. -/
structure Shared where
  /-- The machines of `catalogue::all`. -/
  builtIn : List Persona
  /-- The languages Chrome's interface ships in. -/
  uiLocales : List String
  /-- `str::to_lowercase`. -/
  toLowercase : String → String

/-- `str::contains`. -/
def contains (text part : String) : Bool := text.toList.tails.any fun t => part.toList <+: t

/-- `ANDROID_PLATFORMS`. -/
def androidPlatforms : List String :=
  ["Linux armv81", "Linux armv8l", "Linux armv7l", "Linux aarch64"]

/-- `ANDROID_GPU_FAMILIES`. -/
def androidGpuFamilies : List String :=
  ["Adreno", "Mali", "PowerVR", "Xclipse", "Immortalis", "Maleoon", "IMG"]

/-- `AUDIO_SAMPLE_RATES`. -/
def audioSampleRates : List ℕ :=
  [8000, 11025, 16000, 22050, 32000, 44100, 48000, 88200, 96000, 176400, 192000]

/-- `DESKTOP_ONLY_FONTS`. -/
def desktopOnlyFonts : List String :=
  ["Segoe UI", "Bahnschrift", "Calibri", "Helvetica Neue", "Menlo", "SF Pro", "Apple Color Emoji"]

/-- `char::is_ascii_hexdigit`. -/
def isHexDigit (c : Char) : Bool :=
  c.isDigit || ('a' ≤ c && c ≤ 'f') || ('A' ≤ c && c ≤ 'F')

/-- `has_pci_device_id`: eight hexadecimal digits in brackets, after `0x`. -/
def hasPciDeviceId (renderer : String) : Bool :=
  renderer.toList.tails.any fun t =>
    "(0x".toList <+: t && (((t.drop 3).take 8).length = 8) && ((t.drop 3).take 8).all isHexDigit &&
      (t.drop 11).head? = some ')'

namespace Persona

variable (p : Persona)

/-- `is_android`. -/
def isAndroid : Bool := p.os.name = "Android"

/-- It runs macOS. -/
def isMac : Bool := p.os.name = "macOS"

/-- It runs Windows. -/
def isWin : Bool := p.os.name = "Windows"

/-- The platform is one the system reports. -/
def platformFits : Bool :=
  if p.isAndroid then p.os.platform ∈ androidPlatforms
  else p.os.platform = if p.isMac then "MacIntel" else "Win32"

/-- `validate_mobile`, of a handset. -/
def handsetFits (m : PersonaMobile) : Bool :=
  p.isAndroid && p.os.chPlatform = "Android" && trim m.model ≠ "" &&
    (m.formFactor = "phone" || m.formFactor = "tablet") &&
    (m.connection = "cellular" || m.connection = "wifi") &&
    contains p.os.userAgentTemplate "Android" &&
    ((m.formFactor ≠ "tablet") = contains p.os.userAgentTemplate " Mobile ") &&
    p.scrollbarWidth = 0 && 1 ≤ p.maxTouchPoints && p.maxTouchPoints ≤ 10 &&
    p.screen.colorDepth = 24 && p.memoryGb ≤ 8 &&
    !(contains p.gpu.webglRenderer "Direct3D" || contains p.gpu.webglRenderer "D3D11" ||
      contains p.gpu.webglRenderer "Metal") &&
    androidGpuFamilies.any (contains p.gpu.webglRenderer ·) &&
    p.fonts.all (· ∉ desktopOnlyFonts)

/-- `validate_mobile`. -/
def mobileFits : Bool :=
  match p.mobile with
  | none => !p.isAndroid
  | some m => p.handsetFits m

/-- Scrollbars and touch are the system's. -/
def chromeFits : Bool :=
  (!p.isMac || p.scrollbarWidth = 0) && (!p.isWin || p.scrollbarWidth ≠ 0) &&
    (!p.isMac || p.maxTouchPoints = 0)

/-- The renderer is one the system draws with. -/
def rendererFits : Bool :=
  let r := p.gpu.webglRenderer
  !(p.isMac && (contains r "Direct3D" || contains r "D3D11")) && !(p.isWin && contains r "Metal") &&
    !(p.isWin && contains r "Direct3D11" && !hasPciDeviceId r)

/-- The vendor for WebGPU is the renderer's. -/
def webgpuFits (s : Shared) : Bool :=
  p.gpu.webgpuVendor.all fun vendor =>
    contains (s.toLowercase p.gpu.webglRenderer) (s.toLowercase vendor)

/-- What can be used of the screen is within it. -/
def availableFits : Bool :=
  !(p.screen.width < p.screen.availWidth || p.screen.height < p.screen.availHeight) &&
    !(p.isMac && p.screen.availHeight = p.screen.height)

/-- The ratio is one the system reports. -/
def ratioFits : Bool :=
  let dpr := p.screen.devicePixelRatio
  let allowed : List ℚ :=
    if p.isMac then [1, 2] else [1, 5 / 4, 3 / 2, 7 / 4, 2, 9 / 4, 5 / 2, 3]
  if p.isAndroid then 1 ≤ dpr && dpr ≤ 9 / 2
  else allowed.any fun a => abs64 (f64 (a - dpr)) < f64 (1 / 10 ^ 9)

/-- A panel has whole pixels. -/
def pixelsFit (logical : ℕ) : Bool :=
  let physical := f64 (logical * p.screen.devicePixelRatio)
  abs64 (f64 (physical - round64 physical)) ≤ f64 (1 / 10 ^ 6)

/-- Memory and cores are what machines have. -/
def hardwareFits : Bool :=
  p.memoryGb ≠ 0 && p.memoryGb &&& (p.memoryGb - 1) = 0 &&
    p.cores ≠ 0 && p.cores % 2 = 0 && p.cores ≤ 128 && !(p.memoryGb < 4 && 8 < p.cores)

/-- The fonts are the system's. -/
def fontsFit : Bool :=
  p.fonts ≠ [] && !(p.isMac && p.fonts.any fun f => f = "Segoe UI" || f = "Bahnschrift") &&
    !(p.isWin && p.fonts.any fun f => f = "Helvetica Neue" || f = "Menlo")

/-- `validate`. -/
def validate (s : Shared) : Bool :=
  (p.isMac || p.isWin || p.isAndroid) && p.platformFits && p.mobileFits && p.chromeFits &&
    p.rendererFits && p.webgpuFits s && p.availableFits && p.ratioFits &&
    p.pixelsFit p.screen.width && p.pixelsFit p.screen.height && p.hardwareFits &&
    p.sampleRate ∈ audioSampleRates && p.fontsFit && 0 ≤ p.weight && p.weight ≤ 1

end Persona

/-- A screen instead of the persona's. -/
structure ScreenOverride where
  width : ℕ
  height : ℕ
  devicePixelRatio : ℚ
  deriving DecidableEq, Repr

/-- What a page gets when it reads a canvas back. -/
inductive CanvasMode where
  | noise
  | real
  deriving DecidableEq, Repr

/-- What a profile pins about its machine. -/
structure MachineOverrides where
  uiLocale : Option String
  screen : Option ScreenOverride
  cores : Option ℕ
  memoryGb : Option ℕ
  /-- The machine whose GPU it takes. -/
  gpu : Option String
  /-- Latitude and longitude. -/
  geolocation : Option (ℚ × ℚ)
  canvas : Option CanvasMode
  deriving DecidableEq, Repr

/-- A profile that pins nothing. -/
def MachineOverrides.default : MachineOverrides := ⟨none, none, none, none, none, none, none⟩

/-- `catalogue.iter().find(|p| p.id == id)`. -/
def find (catalogue : List Persona) (id : String) : Option Persona :=
  catalogue.find? fun p => p.id = id

namespace MachineOverrides

variable (o : MachineOverrides) (base : Persona)

/-- The GPU, a machine's of the same system. -/
def applyGpu (catalogue : List Persona) : Option PersonaGpu :=
  match o.gpu with
  | none => some base.gpu
  | some donor => ((find catalogue donor).filter fun d => d.os.name = base.os.name).map Persona.gpu

/-- The screen, with what the persona's own system reserves of it. -/
def applyScreen : Option PersonaScreen :=
  match o.screen with
  | none => some base.screen
  | some s =>
    if base.isAndroid then
      if s.width ≠ base.screen.width || s.height ≠ base.screen.height ||
          f64 (1 / 10 ^ 9) < abs64 (f64 (s.devicePixelRatio - base.screen.devicePixelRatio)) then
        none
      else some base.screen
    else if s.width < 640 || 7680 < s.width || s.height < 480 || 4320 < s.height then none
    else some { base.screen with
      width := s.width
      height := s.height
      availWidth := s.width - (base.screen.width - base.screen.availWidth)
      availHeight := s.height - (base.screen.height - base.screen.availHeight)
      devicePixelRatio := s.devicePixelRatio }

/-- The position is on Earth. -/
def onEarth : Bool :=
  o.geolocation.all fun g => -90 ≤ g.1 && g.1 ≤ 90 && -180 ≤ g.2 && g.2 ≤ 180

/-- `MachineOverrides::apply`; none is a refusal. -/
def apply (s : Shared) (catalogue : List Persona) : Option Persona :=
  (o.applyGpu base catalogue).bind fun gpu => (o.applyScreen base).bind fun screen =>
    let p := { base with
      gpu := gpu
      screen := screen
      cores := o.cores.getD base.cores
      memoryGb := o.memoryGb.getD base.memoryGb }
    if o.uiLocale.all (· ∈ s.uiLocales) && o.onEarth && p.validate s then some p else none

end MachineOverrides

end FuryBrowser.Machines
