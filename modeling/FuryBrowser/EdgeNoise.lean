import FuryBrowser.CanvasDraws
import FuryBrowser.CellFolds
import Mathlib.Data.List.Range

/-!
# The noise on a canvas's edges

`fury_flat::ApplyEdgeNoise` goes over a rectangle of a buffer of four-byte pixels and moves
some of them, judging each by its neighbours in the untouched copy. What it does to one pixel
is a function of the seed, the pixel's position on the canvas, the pixel and those of its
neighbours that it may look at; the order in which the bytes hold the channels is not seen.
-/

namespace FuryBrowser.EdgeNoise

open CanvasDraws (Pixel)

/-- `Mix`. -/
def mix (z : UInt64) : UInt64 :=
  let z := z + 0x9e3779b97f4a7c15
  let z := (z ^^^ (z >>> 30)) * 0xbf58476d1ce4e5b9
  let z := (z ^^^ (z >>> 27)) * 0x94d049bb133111eb
  z ^^^ (z >>> 31)

/-- The seed's bits for a position that is not negative. -/
def hash (seed : UInt64) (x y : ℤ) : UInt64 :=
  mix (seed ^^^ (UInt64.ofNat x.toNat * (0x100000001b3 : UInt64)) ^^^
    (UInt64.ofNat y.toNat <<< (32 : UInt64)))

/-- A span of bytes. -/
structure Span where
  size : ℕ
  /-- The bytes; those from `size` on mean nothing. -/
  byte : ℕ → ℕ

/-- Writes a byte. -/
def Span.set (s : Span) (i v : ℕ) : Span := { s with byte := Function.update s.byte i v }

/-- A rectangle of positions. -/
structure Area where
  left : ℤ
  top : ℤ
  width : ℤ
  height : ℤ
  deriving DecidableEq

/-- The position is in the rectangle. -/
def Area.has (a : Area) (x y : ℤ) : Bool :=
  a.left ≤ x ∧ a.top ≤ y ∧ x < a.left + a.width ∧ y < a.top + a.height

/-- The positions of a rectangle, row by row. -/
def Area.positions (a : Area) : List (ℤ × ℤ) :=
  (List.range a.height.toNat).flatMap fun j : ℕ =>
    (List.range a.width.toNat).map fun i : ℕ => (a.left + i, a.top + j)

/-- What `ApplyEdgeNoise` is called with, apart from the bytes it writes. -/
structure Call where
  seed : UInt64
  /-- The bytes as they were. -/
  original : Span
  /-- How far apart rows are. -/
  rowBytes : ℕ
  /-- The rectangle the bytes cover. -/
  covered : Area
  /-- The rectangle that is noised. -/
  noisedArea : Area
  cw : ℤ
  ch : ℤ
  bgra : Bool
  /-- Opaque pixels are moved too. -/
  opaqueBlends : Bool

/-- `kNeighbours`. -/
def kNeighbours : List (ℤ × ℤ) := [(-1, 0), (1, 0), (0, -1), (0, 1)]

/-- The colour of a pixel that is opaque moves by one. -/
def nudge (h : UInt64) (v : ℕ) : ℕ :=
  if (h >>> 5) &&& 1 ≠ 0 then (if v < 255 then v + 1 else v - 1)
  else (if v > 0 then v - 1 else v + 1)

/-- The coverage of a pixel, moved by one and kept partial. -/
def moved (h : UInt64) (alpha : ℕ) : ℕ :=
  let next : ℤ := if h &&& 2 ≠ 0 then alpha + 1 else alpha - 1
  (if next < 1 then 1 else if next > 254 then 254 else next).toNat

/-- A premultiplied channel at the new coverage. -/
def rescaled (v alpha a2 : ℕ) : ℕ :=
  let scaled := (v * a2 + alpha / 2) / alpha
  if scaled > a2 then a2 else scaled

namespace Call

variable (c : Call)

/-- `usable`: the position is on the canvas and in the buffer. -/
def usable (x y : ℤ) : Bool :=
  0 ≤ x ∧ 0 ≤ y ∧ x < c.cw ∧ y < c.ch ∧ c.covered.has x y

/-- `at`: where a position's bytes begin. -/
def offset (x y : ℤ) : ℕ :=
  (y - c.covered.top).toNat * c.rowBytes + (x - c.covered.left).toNat * 4

/-- `equal`: the same four bytes. -/
def equal (a b : ℕ) : Bool :=
  c.original.byte a = c.original.byte b ∧ c.original.byte (a + 1) = c.original.byte (b + 1) ∧
    c.original.byte (a + 2) = c.original.byte (b + 2) ∧
    c.original.byte (a + 3) = c.original.byte (b + 3)

/-- The offsets of the neighbours that are looked at. -/
def neighbourOffsets (x y : ℤ) : List ℕ :=
  kNeighbours.filterMap fun d =>
    if c.usable (x + d.1) (y + d.2) then
      let q := c.offset (x + d.1) (y + d.2)
      if q + 3 ≥ c.original.size then none else some q
    else none

/-- Coverage: one step, and the same colour at the new coverage. -/
def cover (noised : Span) (p : ℕ) (h : UInt64) : Span :=
  let alpha := c.original.byte (p + 3)
  let a2 := moved h alpha
  (List.range 3).foldl
    (fun noised i => noised.set (p + i) (rescaled (c.original.byte (p + i)) alpha a2))
    (noised.set (p + 3) a2)

/-- One of the colours moves by one. -/
def blend (noised : Span) (p : ℕ) (h : UInt64) : Span :=
  let colour := ((h >>> 3) % 3).toNat
  let channel := if c.bgra ∧ colour ≠ 1 then 2 - colour else colour
  noised.set (p + channel) (nudge h (noised.byte (p + channel)))

/-- The body of the loops. -/
def step (noised : Span) (xy : ℤ × ℤ) : Span :=
  if !c.usable xy.1 xy.2 then noised
  else
    let p := c.offset xy.1 xy.2
    if p + 3 ≥ c.original.size ∨ p + 3 ≥ noised.size then noised
    else
      let alpha := c.original.byte (p + 3)
      if alpha = 0 then noised
      else
        let qs := c.neighbourOffsets xy.1 xy.2
        let allEqual := qs.all fun q => c.equal p q
        let noneEqual := qs.all fun q => !c.equal p q
        let allOpaque := qs.all fun q => c.original.byte (q + 3) = 255
        if allEqual then noised
        else
          let h := hash c.seed xy.1 xy.2
          if h &&& 1 ≠ 0 then noised
          else if alpha < 255 then c.cover noised p h
          else if c.opaqueBlends && noneEqual && allOpaque then c.blend noised p h
          else noised

/-- `ApplyEdgeNoise`. -/
def applyEdgeNoise (noised : Span) : Span := c.noisedArea.positions.foldl c.step noised

end Call

/-- A pixel one of whose colours has moved. -/
def recoloured (h : UInt64) (p : Pixel) : Pixel :=
  match ((h >>> 3) % 3).toNat with
  | 0 => { p with red := nudge h p.red }
  | 1 => { p with green := nudge h p.green }
  | _ => { p with blue := nudge h p.blue }

/-- A partly covered pixel whose coverage has moved. -/
def recovered (h : UInt64) (p : Pixel) : Pixel :=
  let a2 := moved h p.alpha
  ⟨rescaled p.red p.alpha a2, rescaled p.green p.alpha a2, rescaled p.blue p.alpha a2, a2⟩

/-- What the noise makes of a pixel with these bits and neighbours. -/
def noisePixel (h : UInt64) (opaqueBlends : Bool) (p : Pixel) (neighbours : List Pixel) : Pixel :=
  if p.alpha = 0 then p
  else if neighbours.all (· = p) then p
  else if h &&& 1 ≠ 0 then p
  else if p.alpha < 255 then recovered h p
  else if opaqueBlends ∧ neighbours.all (· ≠ p) ∧ neighbours.all (·.alpha = 255) then
    recoloured h p
  else p

/-- The pixel whose bytes begin at an offset. -/
def pixelAt (bgra : Bool) (s : Span) (p : ℕ) : Pixel :=
  if bgra then ⟨s.byte (p + 2), s.byte (p + 1), s.byte p, s.byte (p + 3)⟩
  else ⟨s.byte p, s.byte (p + 1), s.byte (p + 2), s.byte (p + 3)⟩

section Spans

variable (s : Span) (i j v : ℕ)

@[simp] theorem Span.set_size : (s.set i v).size = s.size := rfl

@[simp] theorem Span.set_byte_self : (s.set i v).byte i = v := by
  simp [Span.set]

theorem Span.set_byte_ne (h : j ≠ i) : (s.set i v).byte j = s.byte j := by
  simp [Span.set, h]

@[simp] theorem pixelAt_alpha (bgra : Bool) (p : ℕ) :
    (pixelAt bgra s p).alpha = s.byte (p + 3) := by
  cases bgra <;> rfl

/-- The four bytes of a pixel decide it. -/
theorem pixelAt_congr (bgra : Bool) {s t : Span} {p : ℕ}
    (h : ∀ i, p ≤ i → i < p + 4 → s.byte i = t.byte i) : pixelAt bgra s p = pixelAt bgra t p := by
  have h0 := h p (by omega) (by omega)
  have h1 := h (p + 1) (by omega) (by omega)
  have h2 := h (p + 2) (by omega) (by omega)
  have h3 := h (p + 3) (by omega) (by omega)
  simp only [pixelAt, h0, h1, h2, h3]

end Spans

section Areas

theorem has_iff (a : Area) (x y : ℤ) :
    a.has x y = true ↔ a.left ≤ x ∧ a.top ≤ y ∧ x < a.left + a.width ∧ y < a.top + a.height := by
  simp [Area.has]

theorem mem_positions (a : Area) (x y : ℤ) : (x, y) ∈ a.positions ↔ a.has x y = true := by
  rw [has_iff, Area.positions, List.mem_flatMap]
  constructor
  · rintro ⟨j, hj, hx⟩
    obtain ⟨i, hi, heq⟩ := List.mem_map.mp hx
    cases heq
    rw [List.mem_range] at hi hj
    omega
  · rintro ⟨hl, ht, hr, hb⟩
    refine ⟨(y - a.top).toNat, List.mem_range.mpr (by omega),
      List.mem_map.mpr ⟨(x - a.left).toNat, List.mem_range.mpr (by omega), ?_⟩⟩
    rw [Int.toNat_of_nonneg (by omega), Int.toNat_of_nonneg (by omega)]
    congr 1 <;> omega

theorem nodup_positions (a : Area) : a.positions.Nodup := by
  rw [Area.positions, List.nodup_flatMap]
  constructor
  · intro j hj
    refine List.Nodup.map (fun i i' h => ?_) List.nodup_range
    have hx := congrArg Prod.fst h
    simp only at hx
    omega
  · refine List.Pairwise.imp ?_ List.nodup_range
    intro j j' hne xy hmem hmem'
    obtain ⟨i, -, rfl⟩ := List.mem_map.mp hmem
    obtain ⟨i', -, heq⟩ := List.mem_map.mp hmem'
    have hy := congrArg Prod.snd heq
    simp only at hy
    omega

end Areas

section Steps

variable {c : Call} {s : Span} {x y x' y' : ℤ}

theorem usable_iff : c.usable x y = true ↔
    0 ≤ x ∧ 0 ≤ y ∧ x < c.cw ∧ y < c.ch ∧ c.covered.has x y = true := by
  simp [Call.usable]

/-- The pixels of different positions do not overlap. -/
theorem offset_apart (hrow : 4 * c.covered.width ≤ c.rowBytes) (h : c.covered.has x y = true)
    (h' : c.covered.has x' y' = true) (hne : (x, y) ≠ (x', y')) :
    c.offset x y + 4 ≤ c.offset x' y' ∨ c.offset x' y' + 4 ≤ c.offset x y := by
  rw [has_iff] at h h'
  have hrows : ∀ {i i' j j' : ℕ}, 4 * i + 4 ≤ c.rowBytes → j < j' →
      j * c.rowBytes + i * 4 + 4 ≤ j' * c.rowBytes + i' * 4 := by
    intro i i' j j' hi hj
    have hmul : (j + 1) * c.rowBytes ≤ j' * c.rowBytes := Nat.mul_le_mul_right _ hj
    rw [Nat.succ_mul] at hmul
    omega
  have hij : (y - c.covered.top).toNat ≠ (y' - c.covered.top).toNat ∨
      (x - c.covered.left).toNat ≠ (x' - c.covered.left).toNat := by
    by_contra hsame
    exact hne (by congr 1 <;> omega)
  rw [Call.offset, Call.offset]
  rcases Nat.lt_trichotomy (y - c.covered.top).toNat (y' - c.covered.top).toNat with hj | hj | hj
  · exact .inl (hrows (by omega) hj)
  · rw [hj] at hij ⊢
    omega
  · exact .inr (hrows (by omega) hj)

theorem cover_byte_other {p i : ℕ} (h : UInt64) (hi : i < p ∨ p + 4 ≤ i) :
    (c.cover s p h).byte i = s.byte i := by
  have h0 : i ≠ p + 0 := by omega
  have h1 : i ≠ p + 1 := by omega
  have h2 : i ≠ p + 2 := by omega
  have h3 : i ≠ p + 3 := by omega
  simp only [Call.cover, List.range_succ, List.range_zero, List.nil_append, List.cons_append,
    List.foldl_cons, List.foldl_nil]
  rw [Span.set_byte_ne _ _ _ _ h2, Span.set_byte_ne _ _ _ _ h1, Span.set_byte_ne _ _ _ _ h0,
    Span.set_byte_ne _ _ _ _ h3]

/-- The channel that moves is one of the first three bytes. -/
theorem channel_lt (h : UInt64) (bgra : Bool) :
    (if bgra ∧ ((h >>> 3) % 3).toNat ≠ 1 then 2 - ((h >>> 3) % 3).toNat
      else ((h >>> 3) % 3).toNat) < 3 := by
  have hcolour : ((h >>> 3) % 3).toNat < 3 := by
    rw [UInt64.toNat_mod]
    exact Nat.mod_lt _ (by decide)
  split <;> omega

theorem blend_byte_other {p i : ℕ} (h : UInt64) (hi : i < p ∨ p + 4 ≤ i) :
    (c.blend s p h).byte i = s.byte i := by
  have hlt := channel_lt h c.bgra
  exact Span.set_byte_ne _ _ _ _ (by omega)

end Steps

end FuryBrowser.EdgeNoise

/-!
## What the noise makes of each pixel

The loops come to a position once and write no bytes but its own. So the noised pixel of a
position depends on the untouched pixel there and on the neighbours that may be looked at.
-/

namespace FuryBrowser.EdgeNoise

open CanvasDraws (Pixel)
open CellFolds

section Bodies

variable {c : Call} {s : Span} {p : ℕ}

/-- The coverage of a pixel moves, whichever channel comes first. -/
theorem pixelAt_cover (bgra : Bool) (h : UInt64) :
    pixelAt bgra (c.cover s p h) p = recovered h (pixelAt bgra c.original p) := by
  cases bgra <;>
    simp [pixelAt, Call.cover, recovered, List.range_succ, Span.set]

/-- One colour moves, the same whichever channel comes first. -/
theorem pixelAt_blend (h : UInt64) :
    pixelAt c.bgra (c.blend s p h) p = recoloured h (pixelAt c.bgra s p) := by
  have hcolour : ((h >>> 3) % 3).toNat < 3 := by
    rw [UInt64.toNat_mod]
    exact Nat.mod_lt _ (by decide)
  unfold Call.blend recoloured
  generalize ((h >>> 3) % 3).toNat = colour at hcolour
  cases hb : c.bgra <;> match colour, hcolour with
    | 0, _ => simp [pixelAt, Span.set]
    | 1, _ => simp [pixelAt, Span.set]
    | 2, _ => simp [pixelAt, Span.set]

theorem equal_iff (bgra : Bool) (p q : ℕ) :
    c.equal p q = decide (pixelAt bgra c.original q = pixelAt bgra c.original p) := by
  rw [Bool.eq_iff_iff]
  cases bgra <;> simp [Call.equal, pixelAt] <;> tauto

end Bodies

namespace Call

variable (c : Call)

/-- The neighbours of a position that may be looked at. -/
def lookedAt (x y : ℤ) : List (ℤ × ℤ) :=
  (kNeighbours.map fun d => (x + d.1, y + d.2)).filter fun q => c.usable q.1 q.2

/-- The pixel of a position in the untouched copy. -/
def pixel (xy : ℤ × ℤ) : Pixel := pixelAt c.bgra c.original (c.offset xy.1 xy.2)

/-- The position's pixel is in the buffer, and the position on the canvas. -/
def held (x y : ℤ) : Bool := c.usable x y && c.offset x y + 3 < c.original.size

/-- The neighbours of a position whose pixels are there. -/
def heldBeside (x y : ℤ) : List (ℤ × ℤ) :=
  (kNeighbours.map fun d => (x + d.1, y + d.2)).filter fun q => c.held q.1 q.2

/-- The copy holds the rectangle it covers, rows apart. -/
structure Laid : Prop where
  /-- A row's pixels fit into it. -/
  row : 4 * c.covered.width ≤ c.rowBytes
  /-- The bytes reach to the last pixel. -/
  size : ∀ x y, c.covered.has x y = true → c.offset x y + 3 < c.original.size

end Call

section Loops

variable {c : Call} {s : Span} {x y : ℤ}

theorem held_iff :
    c.held x y = true ↔ c.usable x y = true ∧ c.offset x y + 3 < c.original.size := by
  rw [Call.held, Bool.and_eq_true, decide_eq_true_iff]

theorem held_of_laid (hl : c.Laid) (hu : c.usable x y = true) : c.held x y = true :=
  held_iff.mpr ⟨hu, hl.size x y (usable_iff.mp hu).2.2.2.2⟩

/-- Where the buffer reaches to the last pixel, no neighbour is missed. -/
theorem heldBeside_eq (hl : c.Laid) : c.heldBeside x y = c.lookedAt x y := by
  refine List.filter_congr fun q _ => ?_
  rw [Bool.eq_iff_iff, held_iff]
  exact and_iff_left_of_imp fun hu => (held_iff.mp (held_of_laid hl hu)).2

theorem neighbourOffsets_eq :
    c.neighbourOffsets x y = (c.heldBeside x y).map fun q => c.offset q.1 q.2 := by
  rw [Call.neighbourOffsets, Call.heldBeside]
  induction kNeighbours with
  | nil => rfl
  | cons d ds ih =>
    by_cases hu : c.usable (x + d.1) (y + d.2) = true
    · by_cases hsize : c.offset (x + d.1) (y + d.2) + 3 < c.original.size
      · simp [Call.held, hu, hsize, ih, Nat.not_le.mpr hsize]
      · simp [Call.held, hu, hsize, ih, Nat.not_lt.mp hsize]
    · simp [Call.held, hu, ih]

/-- The flags of the body, in terms of pixels. -/
theorem all_neighbours (f : ℕ → Bool) (g : Pixel → Bool)
    (hfg : ∀ q : ℤ × ℤ, f (c.offset q.1 q.2) = g (c.pixel q)) :
    (c.neighbourOffsets x y).all f = ((c.heldBeside x y).map c.pixel).all g := by
  rw [neighbourOffsets_eq, List.all_map, List.all_map]
  congr 1
  funext q
  exact hfg q

/-- What the body does to the pixel it is at. -/
theorem pixelAt_step (hheld : c.held x y = true) (hs : s.size = c.original.size)
    (hread : pixelAt c.bgra s (c.offset x y) = c.pixel (x, y)) :
    pixelAt c.bgra (c.step s (x, y)) (c.offset x y) =
      noisePixel (hash c.seed x y) c.opaqueBlends (c.pixel (x, y))
        ((c.heldBeside x y).map c.pixel) := by
  obtain ⟨hu, hsize⟩ := held_iff.mp hheld
  have hbounds : ¬(c.offset x y + 3 ≥ c.original.size ∨ c.offset x y + 3 ≥ s.size) := by
    omega
  have halpha : c.original.byte (c.offset x y + 3) = (c.pixel (x, y)).alpha :=
    (pixelAt_alpha c.original c.bgra _).symm
  have hall := all_neighbours (x := x) (y := y) (fun q => c.equal (c.offset x y) q)
    (fun o => o = c.pixel (x, y)) fun q => equal_iff c.bgra _ _
  have hnone := all_neighbours (x := x) (y := y) (fun q => !c.equal (c.offset x y) q)
    (fun o => o ≠ c.pixel (x, y)) fun q => by
      rw [equal_iff c.bgra, decide_not]
      rfl
  have hopaque := all_neighbours (x := x) (y := y)
    (fun q => c.original.byte (q + 3) = 255) (fun o => o.alpha = 255) fun q => by
      rw [← pixelAt_alpha c.original c.bgra _]
      rfl
  simp only [Call.step, hu, Bool.not_true, Bool.false_eq_true, if_false, if_neg hbounds, hall,
    hnone, hopaque, halpha, noisePixel]
  split
  · exact hread
  · split
    · exact hread
    · split
      · exact hread
      · split
        · exact pixelAt_cover c.bgra _
        · simp only [Bool.and_eq_true, and_assoc]
          split
          · rw [pixelAt_blend, hread]
          · exact hread

/-- The body leaves the other pixels alone. -/
theorem step_byte_other {k : ℤ × ℤ} {i : ℕ}
    (hi : c.usable k.1 k.2 = true → i < c.offset k.1 k.2 ∨ c.offset k.1 k.2 + 4 ≤ i) :
    (c.step s k).byte i = s.byte i := by
  cases hu : c.usable k.1 k.2 with
  | false => simp [Call.step, hu]
  | true =>
    have hcover := fun h => cover_byte_other (c := c) (s := s) h (hi hu)
    have hblend := fun h => blend_byte_other (c := c) (s := s) h (hi hu)
    simp only [Call.step, hu, Bool.not_true, Bool.false_eq_true, if_false]
    repeat' split
    all_goals first | rfl | apply hcover | apply hblend

theorem step_size (k : ℤ × ℤ) : (c.step s k).size = s.size := by
  simp only [Call.step]
  repeat' split
  all_goals rfl

/-- Seen from the bytes of one position, the loops are local. -/
theorem step_local (hrow : 4 * c.covered.width ≤ c.rowBytes) (xy : ℤ × ℤ)
    (hu : c.covered.has xy.1 xy.2 = true) :
    Local c.step (fun s => s.size = c.original.size) xy
      fun s => pixelAt c.bgra s (c.offset xy.1 xy.2) where
  kept s k hs := (step_size k).trans hs
  other s k _ hne := by
    refine pixelAt_congr c.bgra fun i hlo hhi => step_byte_other fun hk => ?_
    have hapart := offset_apart hrow (usable_iff.mp hk).2.2.2.2 hu hne
    omega

/-- The noised pixel of every position in the buffer that the loops come to. -/
theorem pixelAt_noised (hrow : 4 * c.covered.width ≤ c.rowBytes) (hheld : c.held x y = true)
    (hin : c.noisedArea.has x y = true) :
    pixelAt c.bgra (c.applyEdgeNoise c.original) (c.offset x y) =
      noisePixel (hash c.seed x y) c.opaqueBlends (c.pixel (x, y))
        ((c.heldBeside x y).map c.pixel) :=
  foldl_mem (step_local hrow (x, y) (usable_iff.mp (held_iff.mp hheld).1).2.2.2.2) rfl
    (nodup_positions c.noisedArea) ((mem_positions c.noisedArea x y).mpr hin) rfl
    fun _ hs hread => pixelAt_step hheld hs hread

/-- The same where the buffer reaches to the last pixel. -/
theorem pixelAt_applyEdgeNoise (hl : c.Laid) (hu : c.usable x y = true)
    (hin : c.noisedArea.has x y = true) :
    pixelAt c.bgra (c.applyEdgeNoise c.original) (c.offset x y) =
      noisePixel (hash c.seed x y) c.opaqueBlends (c.pixel (x, y))
        ((c.lookedAt x y).map c.pixel) := by
  rw [pixelAt_noised hl.row (held_of_laid hl hu) hin, heldBeside_eq hl]

end Loops

end FuryBrowser.EdgeNoise
