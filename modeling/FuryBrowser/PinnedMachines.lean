import FuryBrowser.Personas

/-!
# What a profile pins keeps a machine together

A profile's changes are made to a copy of its persona, and a machine that results from them
can exist. It is the persona's but for what the changes name; a GPU comes whole from a
machine of the same system. A pinned resolution loses to the taskbar or the menu bar what
the persona's own did, where it is no smaller than that.
-/

namespace FuryBrowser.Personas

open Machines (Shared)

variable {s : Shared} {base p : Persona} {catalogue : List Persona} {o : MachineOverrides}

/-- A machine that fits together, as the changes to a persona. -/
structure Coherent (s : Shared) (base : Persona) (catalogue : List Persona)
    (o : MachineOverrides) (p : Persona) : Prop where
  valid : p.validate s
  /-- The system, the fonts and the sound are the persona's, and all that no change names. -/
  own : p = { base with
    gpu := p.gpu
    screen := { base.screen with
      width := p.screen.width
      height := p.screen.height
      availWidth := p.screen.availWidth
      availHeight := p.screen.availHeight
      devicePixelRatio := p.screen.devicePixelRatio }
    cpu := { base.cpu with cores := p.cpu.cores }
    memoryGb := p.memoryGb }
  /-- The GPU is that of the machine named, which runs the same system. -/
  gpu : ∀ id, o.gpu = some id →
    ∃ donor ∈ catalogue, donor.id = id ∧ donor.os.name = base.os.name ∧ p.gpu = donor.gpu
  /-- Without one, it is the persona's. -/
  ownGpu : o.gpu = none → p.gpu = base.gpu
  /-- The screen is of the size that is pinned. -/
  size : ∀ pinned, o.screen = some pinned →
    p.screen.width = pinned.width ∧ p.screen.height = pinned.height
  /-- What can be used of it is inside, by the persona's margins. -/
  margins : o.screen ≠ none →
    p.screen.availWidth ≤ p.screen.width ∧ p.screen.availHeight ≤ p.screen.height ∧
      p.screen.width - p.screen.availWidth = base.screen.width - base.screen.availWidth ∧
      p.screen.height - p.screen.availHeight = base.screen.height - base.screen.availHeight
  /-- Without one, the screen is the persona's. -/
  ownScreen : o.screen = none → p.screen = base.screen
  /-- The cores are what is pinned, or the persona's. -/
  cores : p.cpu.cores = o.cores.getD base.cpu.cores
  memory : p.memoryGb = o.memoryGb.getD base.memoryGb

/-- A pinned screen holds what the persona's system reserves of one. -/
def MachineOverrides.HoldsReserved (o : MachineOverrides) (base : Persona) : Prop :=
  ∀ pinned, o.screen = some pinned → base.isAndroid = false →
    base.screen.width - base.screen.availWidth ≤ pinned.width ∧
      base.screen.height - base.screen.availHeight ≤ pinned.height

/-- What a valid persona leaves of its screen is inside it. -/
theorem Persona.available_le (h : p.validate s) :
    p.screen.availWidth ≤ p.screen.width ∧ p.screen.availHeight ≤ p.screen.height := by
  obtain ⟨weight, ratio, -, -, hv⟩ := p.checked_of_validate h
  simp only [Machines.Persona.validate, Bool.and_eq_true] at hv
  have ha : (p.facts weight ratio).availableFits = true := by tauto
  simp only [Machines.Persona.availableFits, Persona.facts, Bool.and_eq_true, Bool.not_eq_true',
    Bool.or_eq_false_iff] at ha
  obtain ⟨⟨hw, hh⟩, -⟩ := ha
  exact ⟨Nat.not_lt.mp (of_decide_eq_false hw), Nat.not_lt.mp (of_decide_eq_false hh)⟩

namespace MachineOverrides

/-- A GPU that is taken is a machine's of the same system. -/
theorem gpuOf_donor {id : String} (hid : o.gpu = some id) (h : (o.gpuOf base catalogue).2 = []) :
    ∃ donor ∈ catalogue, donor.id = id ∧ donor.os.name = base.os.name ∧
      (o.gpuOf base catalogue).1 = donor.gpu := by
  unfold gpuOf at h ⊢
  simp only [hid] at h ⊢
  cases hfind : catalogue.find? fun d => d.id = id with
  | none => simp [hfind] at h
  | some donor =>
    by_cases hos : donor.os.name = base.os.name
    · refine ⟨donor, List.mem_of_find?_eq_some hfind, ?_, hos, by simp [hos]⟩
      simpa using List.find?_some hfind
    · simp [hfind, hos] at h

/-- A screen that is taken: a phone's own, or one of the pinned size. -/
theorem screenOf_pinned {pinned : ScreenOverride} (hpinned : o.screen = some pinned)
    (h : (o.screenOf base).2 = []) :
    if base.isAndroid then
      (o.screenOf base).1 = base.screen ∧ pinned.width = base.screen.width ∧
        pinned.height = base.screen.height
    else (o.screenOf base).1 = { base.screen with
      width := pinned.width
      height := pinned.height
      availWidth := pinned.width - (base.screen.width - base.screen.availWidth)
      availHeight := pinned.height - (base.screen.height - base.screen.availHeight)
      devicePixelRatio := pinned.devicePixelRatio } := by
  unfold screenOf at h ⊢
  simp only [hpinned] at h ⊢
  by_cases ha : base.isAndroid
  · simp only [ha, if_true, true_and] at h ⊢
    by_contra hsize
    have hsize : pinned.width ≠ base.screen.width ∨ pinned.height ≠ base.screen.height := by
      tauto
    cases hsize with
    | inl hw => simp [hw] at h
    | inr hh => simp [hh] at h
  · simp only [ha, Bool.false_eq_true, if_false] at h ⊢
    split at h
    next => cases h
    next hsize => simp [hsize]

theorem apply_default (h : base.validate s) :
    MachineOverrides.apply {} base s catalogue = .ok base := by
  simp [apply, refusals, copyOf, gpuOf, screenOf, contextRefusals, h]

end MachineOverrides

/-- The screen that results differs from the persona's in its size alone. -/
theorem screenOf_own (o : MachineOverrides) (base : Persona) :
    (o.screenOf base).1 = { base.screen with
      width := (o.screenOf base).1.width
      height := (o.screenOf base).1.height
      availWidth := (o.screenOf base).1.availWidth
      availHeight := (o.screenOf base).1.availHeight
      devicePixelRatio := (o.screenOf base).1.devicePixelRatio } := by
  unfold MachineOverrides.screenOf
  split
  next => rfl
  next =>
    split
    · rfl
    · split <;> rfl

/-- What a valid persona keeps of its screen is what a copy of it keeps. -/
theorem margins_iff (hscreen : (o.screenOf base).2 = [])
    {pinned : ScreenOverride} (hpinned : o.screen = some pinned) :
    ((o.screenOf base).1.width - (o.screenOf base).1.availWidth =
        base.screen.width - base.screen.availWidth ∧
      (o.screenOf base).1.height - (o.screenOf base).1.availHeight =
        base.screen.height - base.screen.availHeight) ↔
      (base.isAndroid = false →
        base.screen.width - base.screen.availWidth ≤ pinned.width ∧
          base.screen.height - base.screen.availHeight ≤ pinned.height) := by
  have htaken := MachineOverrides.screenOf_pinned hpinned hscreen
  cases ha : base.isAndroid with
  | true =>
    simp only [ha, if_true] at htaken
    simp [htaken.1]
  | false =>
    simp only [ha, Bool.false_eq_true, if_false] at htaken
    rw [htaken]
    simp only [forall_const]
    omega

/-- For every valid persona: nothing pinned gives the persona, and a machine that a profile's
changes give is coherent if and only if a pinned screen holds what the system reserves. -/
theorem coherent_iff_holdsReserved (s : Shared) (base : Persona) (catalogue : List Persona)
    (hbase : base.validate s) :
    MachineOverrides.apply {} base s catalogue = .ok base ∧
      ∀ (o : MachineOverrides) (p : Persona), o.apply base s catalogue = .ok p →
        (Coherent s base catalogue o p ↔ o.HoldsReserved base) := by
  refine ⟨MachineOverrides.apply_default hbase, fun o p hp => ?_⟩
  obtain ⟨rfl, hgpu, hscreen, hvalid⟩ := MachineOverrides.apply_eq_ok hp
  constructor
  · intro hc pinned hpinned
    obtain ⟨-, -, hw, hh⟩ := hc.margins (by simp [hpinned])
    exact (margins_iff hscreen hpinned).mp ⟨hw, hh⟩
  · intro hholds
    have havail := Persona.available_le hvalid
    exact {
      valid := hvalid
      own := by
        simp only [MachineOverrides.copyOf, ← screenOf_own]
      gpu := fun id hid => MachineOverrides.gpuOf_donor hid hgpu
      ownGpu := fun hnone => by simp [MachineOverrides.copyOf, MachineOverrides.gpuOf, hnone]
      size := fun pinned hpinned => by
        have htaken := MachineOverrides.screenOf_pinned hpinned hscreen
        split at htaken
        next => exact ⟨by rw [htaken.2.1, ← htaken.1]; rfl, by rw [htaken.2.2, ← htaken.1]; rfl⟩
        next => exact ⟨congrArg PersonaScreen.width htaken, congrArg PersonaScreen.height htaken⟩
      margins := fun hsome => by
        obtain ⟨pinned, hpinned⟩ := Option.ne_none_iff_exists'.mp hsome
        obtain ⟨hw, hh⟩ := (margins_iff hscreen hpinned).mpr (hholds pinned hpinned)
        exact ⟨havail.1, havail.2, hw, hh⟩
      ownScreen := fun hnone => by
        simp [MachineOverrides.copyOf, MachineOverrides.screenOf, hnone]
      cores := rfl
      memory := rfl }

section Facts

variable {b : Machines.Persona} {m : Machines.MachineOverrides} {cat : List Machines.Persona}

/-- Of a screen, with its ratio as a number. -/
def PersonaScreen.facts? (x : PersonaScreen) : Option Machines.PersonaScreen :=
  x.devicePixelRatio.value?.map fun ratio =>
    ⟨x.width, x.height, x.availWidth, x.availHeight, x.colorDepth, ratio⟩

end Facts

/-- A desktop whose taskbar is dragged high. -/
def workstation : Persona where
  id := "windows-11-3840x2160"
  weight := .finite (1 / 100)
  source := some "measured"
  contributedBy := none
  machine := none
  os := ⟨"Windows", "11", "x86_64", "Mozilla/5.0 (Windows NT 10.0; Win64; x64)", "Win32",
    "Windows", "15.0.0", "x86", "64"⟩
  gpu := ⟨"Google Inc. (Intel)", "ANGLE (Intel, Intel(R) UHD 630 (0x00003E92) Direct3D11)", [],
    [], [], [], [], none⟩
  screen := ⟨3840, 2160, 3840, 1560, 24, .finite 1, none⟩
  chromeMetrics := ⟨88, 16, 15⟩
  cpu := ⟨8, none⟩
  memoryGb := 16
  maxTouchPoints := 0
  fonts := ["Segoe UI", "Calibri"]
  audio := ⟨48000, .finite (1 / 100), .finite (1 / 50)⟩
  voices := []
  mediaDevices := []
  mobile := none

/-- A crate with no machines of its own. -/
def bare : Shared := ⟨[], ["en-US"], String.toLower⟩

/-- A screen of a size, at one pixel a pixel. -/
def pinning (width height : ℕ) : MachineOverrides where
  screen := some ⟨width, height, .finite 1⟩

/-- A screen that holds the taskbar leaves it as high as it was. -/
theorem coherent_iff_holdsReserved_fullHd :
    Coherent bare workstation [] (pinning 1920 1080)
      ((pinning 1920 1080).copyOf workstation []) := by
  have hnone : (pinning 1920 1080).refusals workstation bare [] = [] := by decide +kernel
  refine ((coherent_iff_holdsReserved bare workstation [] (by decide +kernel)).2 _ _ ?_).mpr ?_
  · exact if_pos hnone
  · rintro pinned hpinned -
    cases hpinned
    decide

/-- A screen lower than the taskbar is accepted, and nothing of it can be used. -/
theorem taskbar_fills_screen :
    ¬ ∀ (s : Shared) (base : Persona) (catalogue : List Persona), base.validate s →
      ∀ (o : MachineOverrides) (p : Persona), o.apply base s catalogue = .ok p →
        Coherent s base catalogue o p := by
  intro hall
  have hnone : (pinning 640 480).refusals workstation bare [] = [] := by decide +kernel
  have hcoherent := hall bare workstation [] (by decide +kernel) (pinning 640 480) _ (if_pos hnone)
  obtain ⟨-, -, -, hheight⟩ := hcoherent.margins nofun
  exact absurd hheight (by decide)

end FuryBrowser.Personas
