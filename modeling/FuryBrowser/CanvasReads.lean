import FuryBrowser.EdgeNoise

/-!
# The ways to read a canvas

A 2D canvas is read with `getImageData`, `toDataURL` and `toBlob`, one with a WebGL context
with `readPixels` instead of `getImageData`. Each makes a call of `ApplyEdgeNoise` of its own,
on a copy of its own. What a page sees of a position is what Skia makes of the premultiplied
pixel there, so the pixels are compared before that.

Positions count from the upper left corner of the canvas, as in the 2D calls; WebGL counts
rows from below. An ImageData is in the canvas's colour space and WebGL packs rows tightly.
-/

namespace FuryBrowser.CanvasReads

open CanvasDraws (Pixel)
open EdgeNoise

/-- `SkColorType`, as far as canvases have them. -/
inductive ColorType
  | rgba8888
  | bgra8888
  | rgbaF16
  deriving DecidableEq

/-- The bytes of a pixel. -/
def ColorType.bytesPerPixel : ColorType → ℕ
  | rgbaF16 => 8
  | _ => 4

/-- The backing store of a canvas. -/
structure Surface where
  colorType : ColorType
  width : ℕ
  height : ℕ
  rowBytes : ℕ
  /-- A row has room for its pixels. -/
  fits : colorType.bytesPerPixel * width ≤ rowBytes

/-- What is on the canvas, and what else a read depends on. -/
structure Scene where
  seed : UInt64
  /-- The bytes of the backing store, premultiplied. -/
  memory : ℕ → ℕ
  /-- Skia's reading of a pixel of half floats. -/
  half : List ℕ → Pixel
  /-- What the page's array held where WebGL reads outside the canvas. -/
  held : ℤ → ℤ → Pixel

namespace Surface

variable (s : Surface)

/-- The position is on the canvas. -/
def onCanvas (x y : ℤ) : Bool := 0 ≤ x ∧ 0 ≤ y ∧ x < s.width ∧ y < s.height

/-- The whole canvas. -/
def whole : Area := ⟨0, 0, s.width, s.height⟩

/-- The premultiplied pixel that bytes hold at a position. -/
def pixelOf (half : List ℕ → Pixel) (memory : ℕ → ℕ) (x y : ℤ) : Pixel :=
  let row := y.toNat * s.rowBytes
  match s.colorType with
  | .rgba8888 => pixelAt false ⟨s.rowBytes * s.height, memory⟩ (row + x.toNat * 4)
  | .bgra8888 => pixelAt true ⟨s.rowBytes * s.height, memory⟩ (row + x.toNat * 4)
  | .rgbaF16 => half ((List.range 8).map fun i => memory (row + x.toNat * 8 + i))

/-- The premultiplied pixel of a scene. -/
def pixel (d : Scene) (x y : ℤ) : Pixel := s.pixelOf d.half d.memory x y

end Surface

/-- The bytes of a rectangle of pixels, RGBA, rows one after the other. -/
def spanOf (a : Area) (pixel : ℤ → ℤ → Pixel) : Span where
  size := a.width.toNat * 4 * a.height.toNat
  byte n :=
    let inRow := n % (a.width.toNat * 4)
    let p := pixel (a.left + (inRow / 4 : ℕ)) (a.top + (n / (a.width.toNat * 4) : ℕ))
    match inRow % 4 with
    | 0 => p.red
    | 1 => p.green
    | 2 => p.blue
    | _ => p.alpha

section Calls

variable (s : Surface) (d : Scene)

/-- The region of `getImageData` with a margin of one pixel, clipped to the canvas. -/
def marginArea (r : Area) : Area :=
  let ox := max 0 (r.left - 1)
  let oy := max 0 (r.top - 1)
  ⟨ox, oy, min (s.width : ℤ) (r.left + r.width + 1) - ox,
    min (s.height : ℤ) (r.top + r.height + 1) - oy⟩

/-- The region, clipped to the canvas. -/
def innerArea (r : Area) : Area :=
  let ix := max 0 r.left
  let iy := max 0 r.top
  ⟨ix, iy, min (s.width : ℤ) (r.left + r.width) - ix,
    min (s.height : ℤ) (r.top + r.height) - iy⟩

/-- The call that `getImageData` makes. -/
def imageDataCall (r : Area) : Call where
  seed := d.seed
  original := spanOf (marginArea s r) (s.pixel d)
  rowBytes := (marginArea s r).width.toNat * 4
  covered := marginArea s r
  noisedArea := innerArea s r
  cw := s.width
  ch := s.height
  bgra := false
  opaqueBlends := true

/-- The pixel that an ImageData of this format holds at a position. -/
def getImageData (r : Area) (out : ColorType) (x y : ℤ) : Pixel :=
  let o := marginArea s r
  let i := innerArea s r
  let c := imageDataCall s d r
  if out = .rgba8888 ∧ o.width > 0 ∧ o.height > 0 ∧ i.width > 0 ∧ i.height > 0 ∧ i.has x y then
    pixelAt false (c.applyEdgeNoise c.original)
      ((y - i.top + (i.top - o.top)).toNat * c.rowBytes +
        (x - i.left + (i.left - o.left)).toNat * 4)
  else s.pixel d x y

/-- The call that `toDataURL` and `toBlob` make on the backing store. -/
def backingCall : Call where
  seed := d.seed
  original := ⟨s.rowBytes * s.height, d.memory⟩
  rowBytes := s.rowBytes
  covered := s.whole
  noisedArea := s.whole
  cw := s.width
  ch := s.height
  bgra := s.colorType = .bgra8888
  opaqueBlends := true

/-- `ImageDataBuffer::ApplyFuryNoise`: the backing store's bytes, noised. -/
def toDataURL (x y : ℤ) : Pixel :=
  if s.rowBytes = 0 ∨ s.height = 0 then s.pixel d x y
  else
    let c := backingCall s d
    s.pixelOf d.half (c.applyEdgeNoise c.original).byte x y

/-- `CanvasAsyncBlobCreator::FuryApplyNoise`: only two formats are noised. -/
def toBlob (x y : ℤ) : Pixel :=
  if s.rowBytes = 0 ∨ s.height = 0 ∨ (s.colorType ≠ .bgra8888 ∧ s.colorType ≠ .rgba8888) then
    s.pixel d x y
  else
    let c := backingCall s d
    s.pixelOf d.half (c.applyEdgeNoise c.original).byte x y

/-- What WebGL finds at a position counted from below. -/
def glPixel (x y : ℤ) : Pixel :=
  if s.onCanvas x y then s.pixel d x (s.height - 1 - y) else d.held x y

/-- The call that `readPixels` makes: the region is its own world. -/
def readPixelsCall (r : Area) : Call where
  seed := d.seed
  original := spanOf r (glPixel s d)
  rowBytes := r.width.toNat * 4
  covered := r
  noisedArea := r
  cw := r.left + r.width
  ch := r.top + r.height
  bgra := false
  opaqueBlends := false

/-- The pixel that `readPixels` gives for a position counted from below; only `GL_RGBA` of
bytes is noised. -/
def readPixels (r : Area) (rgbaBytes : Bool) (x y : ℤ) : Pixel :=
  if rgbaBytes ∧ r.width > 0 ∧ r.height > 0 then
    let c := readPixelsCall s d r
    pixelAt false (c.applyEdgeNoise c.original) (c.offset x y)
  else glPixel s d x y

end Calls

/-- The context of a canvas. -/
inductive ContextKind
  | canvas2D
  | webGL

/-- A way to read a canvas. -/
inductive Readback : ContextKind → Type
  /-- A rectangle, as an ImageData of this format. -/
  | getImageData (r : Area) (out : ColorType) : Readback .canvas2D
  /-- A rectangle counted from below, as RGBA bytes or in another format. -/
  | readPixels (r : Area) (rgbaBytes : Bool) : Readback .webGL
  | toDataURL (k : ContextKind) : Readback k
  | toBlob (k : ContextKind) : Readback k

namespace Readback

variable (s : Surface)

/-- The read contains the position. -/
def contains {k : ContextKind} : Readback k → ℤ → ℤ → Bool
  | getImageData r _, x, y => r.has x y
  | readPixels r _, x, y => r.has x (s.height - 1 - y)
  | toDataURL _, _, _ => true
  | toBlob _, _, _ => true

/-- The premultiplied pixel that is read at a position. -/
def shown {k : ContextKind} : Readback k → Scene → ℤ → ℤ → Pixel
  | getImageData r out, d, x, y => CanvasReads.getImageData s d r out x y
  | readPixels r rgbaBytes, d, x, y => CanvasReads.readPixels s d r rgbaBytes x (s.height - 1 - y)
  | toDataURL _, d, x, y => CanvasReads.toDataURL s d x y
  | toBlob _, d, x, y => CanvasReads.toBlob s d x y

end Readback

end FuryBrowser.CanvasReads

/-!
## What becomes of a pixel on its way to a page

A position's pixel is noised as part of the whole canvas, handed out as it is, noised as part of
a rectangle that is its own world, or taken for two pixels where it is half floats. Which of these
it is depends on the store and on the way it is read, not on where the rectangle ends.
-/

namespace FuryBrowser.CanvasReads

open CanvasDraws (Pixel)
open EdgeNoise

/-- What becomes of a pixel. -/
inductive View
  /-- It is noised as part of the whole canvas. -/
  | whole
  /-- It is handed out as it is. -/
  | untouched
  /-- Its half floats are noised as two pixels of bytes. -/
  | halves
  /-- It is noised as part of a rectangle counted from below. -/
  | region (r : Area)

/-- What a way to read makes of the pixels it contains. -/
def Readback.view (s : Surface) {k : ContextKind} : Readback k → View
  | getImageData _ out => if out = .rgba8888 then .whole else .untouched
  | readPixels r rgbaBytes => if rgbaBytes then .region r else .untouched
  | toDataURL _ => if s.colorType = .rgbaF16 then .halves else .whole
  | toBlob _ => if s.colorType = .rgbaF16 then .untouched else .whole

/-- The positions next to one. -/
def nextTo (x y : ℤ) : List (ℤ × ℤ) := kNeighbours.map fun d => (x + d.1, y + d.2)

/-- The neighbours of a position on the canvas. -/
def Surface.around (s : Surface) (x y : ℤ) : List (ℤ × ℤ) :=
  (nextTo x y).filter fun q => s.onCanvas q.1 q.2

/-- The neighbours of a position in a rectangle counted from below. -/
def beside (r : Area) (x y : ℤ) : List (ℤ × ℤ) :=
  (nextTo x y).filter fun q => 0 ≤ q.1 ∧ 0 ≤ q.2 ∧ r.has q.1 q.2

/-- A pixel noised as part of the whole canvas. -/
def wholePixel (s : Surface) (d : Scene) (x y : ℤ) : Pixel :=
  noisePixel (hash d.seed x y) true (s.pixel d x y)
    ((s.around x y).map fun q => s.pixel d q.1 q.2)

/-- A pixel noised as part of a rectangle. -/
def regionPixel (s : Surface) (d : Scene) (r : Area) (x y : ℤ) : Pixel :=
  noisePixel (hash d.seed x y) false (glPixel s d x y)
    ((beside r x y).map fun q => glPixel s d q.1 q.2)

section Spans

variable {a : Area} {x y : ℤ}

/-- A span of a rectangle's pixels holds each of them. -/
theorem pixelAt_spanOf (f : ℤ → ℤ → Pixel) (h : a.has x y = true) :
    pixelAt false (spanOf a f)
      ((y - a.top).toNat * (a.width.toNat * 4) + (x - a.left).toNat * 4) = f x y := by
  rw [has_iff] at h
  have hi : (x - a.left).toNat < a.width.toNat := by omega
  have hx : a.left + ((x - a.left).toNat : ℤ) = x := by omega
  have hy : a.top + ((y - a.top).toNat : ℤ) = y := by omega
  generalize (x - a.left).toNat = i at hi hx ⊢
  generalize (y - a.top).toNat = j at hy ⊢
  have hbyte (k : ℕ) (hk : k < 4) :
      (j * (a.width.toNat * 4) + i * 4 + k) % (a.width.toNat * 4) = i * 4 + k ∧
        (j * (a.width.toNat * 4) + i * 4 + k) / (a.width.toNat * 4) = j := by
    have hlt : i * 4 + k < a.width.toNat * 4 := by omega
    rw [Nat.add_assoc, Nat.mul_comm j, Nat.mul_add_mod, Nat.mod_eq_of_lt hlt,
      Nat.mul_add_div (by omega), Nat.div_eq_of_lt hlt]
    exact ⟨rfl, Nat.add_zero j⟩
  have hdiv (k : ℕ) (hk : k < 4) : (i * 4 + k) / 4 = i ∧ (i * 4 + k) % 4 = k := by omega
  have h0 := hbyte 0 (by decide)
  rw [Nat.add_zero, Nat.add_zero] at h0
  have hi0 : i * 4 / 4 = i ∧ i * 4 % 4 = 0 := by omega
  simp only [pixelAt, spanOf, Bool.false_eq_true, if_false, h0, hi0, hbyte 1 (by decide),
    hbyte 2 (by decide), hbyte 3 (by decide), hdiv 1 (by decide), hdiv 2 (by decide),
    hdiv 3 (by decide), hx, hy]

end Spans

section Laid

variable {s : Surface} {d : Scene} {r : Area} {x y : ℤ}

/-- A copy of a rectangle's pixels holds it. -/
theorem spanOf_laid {c : Call} {f : ℤ → ℤ → Pixel} (horiginal : c.original = spanOf c.covered f)
    (hrow : c.rowBytes = c.covered.width.toNat * 4) : c.Laid where
  row := by
    rw [hrow]
    omega
  size x y h := by
    rw [has_iff] at h
    rw [horiginal, Call.offset, hrow]
    have hj : (y - c.covered.top).toNat + 1 ≤ c.covered.height.toNat := by omega
    have hi : (x - c.covered.left).toNat < c.covered.width.toNat := by omega
    have hmul := Nat.mul_le_mul_left (c.covered.width.toNat * 4) hj
    rw [Nat.mul_add, Nat.mul_one, Nat.mul_comm _ (y - c.covered.top).toNat] at hmul
    change _ < c.covered.width.toNat * 4 * c.covered.height.toNat
    omega

/-- The backing store holds the canvas. -/
theorem backingCall_laid : (backingCall s d).Laid where
  row := by
    have hfits := s.fits
    have hbytes : 4 ≤ s.colorType.bytesPerPixel := by cases s.colorType <;> decide
    have hmul := Nat.mul_le_mul_right s.width hbytes
    change 4 * (s.width : ℤ) ≤ s.rowBytes
    omega
  size x y h := by
    rw [has_iff] at h
    have hfits := s.fits
    have hbytes : 4 ≤ s.colorType.bytesPerPixel := by cases s.colorType <;> decide
    have hwide := Nat.mul_le_mul_right s.width hbytes
    change _ ∧ _ ∧ x < 0 + (s.width : ℤ) ∧ y < 0 + (s.height : ℤ) at h
    change 0 ≤ x ∧ 0 ≤ y ∧ _ at h
    change (y - 0).toNat * s.rowBytes + (x - 0).toNat * 4 + 3 < s.rowBytes * s.height
    have hj : (y - 0).toNat + 1 ≤ s.height := by omega
    have hi : (x - 0).toNat < s.width := by omega
    have hmul := Nat.mul_le_mul_left s.rowBytes hj
    rw [Nat.mul_add, Nat.mul_one, Nat.mul_comm _ (y - 0).toNat] at hmul
    omega

end Laid

section Whole

variable {s : Surface} {d : Scene} {r : Area} {x y : ℤ}

theorem onCanvas_iff (s : Surface) (x y : ℤ) :
    s.onCanvas x y = true ↔ 0 ≤ x ∧ 0 ≤ y ∧ x < s.width ∧ y < s.height := by
  simp [Surface.onCanvas]

theorem mem_nextTo {q : ℤ × ℤ} : q ∈ nextTo x y ↔
    q = (x - 1, y) ∨ q = (x + 1, y) ∨ q = (x, y - 1) ∨ q = (x, y + 1) := by
  simp [nextTo, kNeighbours, sub_eq_add_neg]

/-- A call that covers what is next to a position on the canvas looks at all of it. -/
theorem lookedAt_eq {c : Call} (hw : c.cw = s.width) (hh : c.ch = s.height)
    (hcovered : ∀ q ∈ nextTo x y, s.onCanvas q.1 q.2 = true → c.covered.has q.1 q.2 = true) :
    c.lookedAt x y = s.around x y := by
  refine List.filter_congr fun q hq => ?_
  rw [Bool.eq_iff_iff, usable_iff, onCanvas_iff, hw, hh]
  constructor
  · rintro ⟨hx, hy, hxw, hyh, -⟩
    exact ⟨hx, hy, hxw, hyh⟩
  · rintro ⟨hx, hy, hxw, hyh⟩
    exact ⟨hx, hy, hxw, hyh, hcovered q hq ((onCanvas_iff s _ _).mpr ⟨hx, hy, hxw, hyh⟩)⟩

/-- An ImageData of bytes is noised as the whole canvas is. -/
theorem getImageData_whole (hin : r.has x y = true) (hon : s.onCanvas x y = true) :
    getImageData s d r .rgba8888 x y = wholePixel s d x y := by
  have hr := (has_iff r x y).mp hin
  have hc := (onCanvas_iff s x y).mp hon
  have hlaid : (imageDataCall s d r).Laid := spanOf_laid rfl rfl
  have hinner : (innerArea s r).has x y = true := by
    rw [has_iff]
    simp only [innerArea]
    omega
  have hmargin (q : ℤ × ℤ) (hq : q ∈ (x, y) :: nextTo x y) (hqon : s.onCanvas q.1 q.2 = true) :
      (marginArea s r).has q.1 q.2 = true := by
    have hq' := (onCanvas_iff s _ _).mp hqon
    rw [has_iff]
    simp only [marginArea]
    rcases List.mem_cons.mp hq with rfl | hq
    · omega
    · rcases mem_nextTo.mp hq with rfl | rfl | rfl | rfl <;> simp only at hq' ⊢ <;> omega
  have hlooked : (imageDataCall s d r).lookedAt x y = s.around x y :=
    lookedAt_eq rfl rfl fun q hq => hmargin q (List.mem_cons_of_mem _ hq)
  have hcovered := hmargin (x, y) List.mem_cons_self hon
  have hpixel (q : ℤ × ℤ) (hq : (marginArea s r).has q.1 q.2 = true) :
      (imageDataCall s d r).pixel q = s.pixel d q.1 q.2 :=
    pixelAt_spanOf (s.pixel d) hq
  have husable : (imageDataCall s d r).usable x y = true :=
    usable_iff.mpr ⟨hc.1, hc.2.1, hc.2.2.1, hc.2.2.2, hcovered⟩
  have hnoised := pixelAt_applyEdgeNoise hlaid husable hinner
  have hothers : (s.around x y).map (imageDataCall s d r).pixel =
      (s.around x y).map fun q => s.pixel d q.1 q.2 := by
    refine List.map_congr_left fun q hq => ?_
    obtain ⟨hnext, hqon⟩ := List.mem_filter.mp hq
    exact hpixel q (hmargin q (List.mem_cons_of_mem _ hnext) hqon)
  rw [hlooked, hpixel (x, y) hcovered, hothers] at hnoised
  have hopen : (marginArea s r).width > 0 ∧ (marginArea s r).height > 0 ∧
      (innerArea s r).width > 0 ∧ (innerArea s r).height > 0 ∧
      (innerArea s r).has x y = true := by
    rw [has_iff] at hcovered
    refine ⟨by omega, by omega, ?_, ?_, hinner⟩ <;> rw [has_iff] at hinner <;> omega
  have hx : x - (innerArea s r).left + ((innerArea s r).left - (marginArea s r).left) =
      x - (marginArea s r).left := by omega
  have hy : y - (innerArea s r).top + ((innerArea s r).top - (marginArea s r).top) =
      y - (marginArea s r).top := by omega
  rw [getImageData]
  simp only [hx, hy]
  exact (if_pos ⟨trivial, hopen⟩).trans hnoised

/-- The four bytes of a position in a backing store are noised as those of the whole canvas,
whatever they stand for. -/
theorem backing_noised (hon : s.onCanvas x y = true) :
    pixelAt (backingCall s d).bgra ((backingCall s d).applyEdgeNoise (backingCall s d).original)
        ((backingCall s d).offset x y) =
      noisePixel (hash d.seed x y) true ((backingCall s d).pixel (x, y))
        ((s.around x y).map (backingCall s d).pixel) := by
  have hc := (onCanvas_iff s x y).mp hon
  have hhas (q : ℤ × ℤ) (hq : s.onCanvas q.1 q.2 = true) : s.whole.has q.1 q.2 = true := by
    have hq' := (onCanvas_iff s _ _).mp hq
    rw [has_iff]
    simp only [Surface.whole]
    omega
  have husable : (backingCall s d).usable x y = true :=
    usable_iff.mpr ⟨hc.1, hc.2.1, hc.2.2.1, hc.2.2.2, hhas (x, y) hon⟩
  have hlooked : (backingCall s d).lookedAt x y = s.around x y :=
    lookedAt_eq rfl rfl fun q _ hq => hhas q hq
  rw [← hlooked]
  exact pixelAt_applyEdgeNoise backingCall_laid husable (hhas (x, y) hon)

/-- A backing store of bytes is noised as the whole canvas. -/
theorem pixelOf_backing (hbytes : s.colorType ≠ .rgbaF16) (hon : s.onCanvas x y = true) :
    s.pixelOf d.half ((backingCall s d).applyEdgeNoise (backingCall s d).original).byte x y =
      wholePixel s d x y := by
  -- The channels' order is the one that the store is read back with.
  have hread (half : List ℕ → Pixel) (t : Span) (q : ℤ × ℤ) : s.pixelOf half t.byte q.1 q.2 =
      pixelAt (backingCall s d).bgra t ((backingCall s d).offset q.1 q.2) := by
    have hoffset : (backingCall s d).offset q.1 q.2 =
        q.2.toNat * s.rowBytes + q.1.toNat * 4 := by
      simp [Call.offset, backingCall, Surface.whole]
    rw [hoffset]
    cases htype : s.colorType with
    | rgba8888 => simp [Surface.pixelOf, backingCall, htype, pixelAt]
    | bgra8888 => simp [Surface.pixelOf, backingCall, htype, pixelAt]
    | rgbaF16 => exact absurd htype hbytes
  have hpixel (q : ℤ × ℤ) : (backingCall s d).pixel q = s.pixel d q.1 q.2 :=
    (hread d.half (backingCall s d).original q).symm
  have hothers : (s.around x y).map (backingCall s d).pixel =
      (s.around x y).map fun q => s.pixel d q.1 q.2 :=
    List.map_congr_left fun q _ => hpixel q
  have hnoised := backing_noised (d := d) hon
  rw [hpixel (x, y), hothers] at hnoised
  rw [hread d.half _ (x, y)]
  exact hnoised

end Whole

section Region

variable {s : Surface} {d : Scene} {r : Area} {x y : ℤ}

/-- A rectangle that WebGL reads is noised as if there were nothing else. -/
theorem readPixels_region (hin : r.has x y = true) (hx : 0 ≤ x) (hy : 0 ≤ y) :
    readPixels s d r true x y = regionPixel s d r x y := by
  have hr := (has_iff r x y).mp hin
  have hlaid : (readPixelsCall s d r).Laid := spanOf_laid rfl rfl
  have husable : (readPixelsCall s d r).usable x y = true :=
    usable_iff.mpr ⟨hx, hy, hr.2.2.1, hr.2.2.2, hin⟩
  have hnoised := pixelAt_applyEdgeNoise hlaid husable hin
  have hlooked : (readPixelsCall s d r).lookedAt x y = beside r x y := by
    refine List.filter_congr fun q _ => ?_
    rw [Bool.eq_iff_iff, usable_iff, decide_eq_true_eq]
    constructor
    · rintro ⟨h0, h1, -, -, hhas⟩
      exact ⟨h0, h1, hhas⟩
    · rintro ⟨h0, h1, hhas⟩
      have hq := (has_iff r _ _).mp hhas
      exact ⟨h0, h1, hq.2.2.1, hq.2.2.2, hhas⟩
  have hpixel (q : ℤ × ℤ) (hq : r.has q.1 q.2 = true) :
      (readPixelsCall s d r).pixel q = glPixel s d q.1 q.2 :=
    pixelAt_spanOf (glPixel s d) hq
  have hothers : (beside r x y).map (readPixelsCall s d r).pixel =
      (beside r x y).map fun q => glPixel s d q.1 q.2 := by
    refine List.map_congr_left fun q hq => hpixel q ?_
    exact (decide_eq_true_eq.mp (List.mem_filter.mp hq).2).2.2
  rw [hlooked, hpixel (x, y) hin, hothers] at hnoised
  have hopen : r.width > 0 ∧ r.height > 0 := by omega
  rw [readPixels]
  exact (if_pos ⟨rfl, hopen⟩).trans hnoised

end Region

section Shown

variable {s : Surface} {d : Scene} {x y : ℤ} {k : ContextKind}

/-- A store with a position on it has bytes. -/
theorem rowBytes_pos (hon : s.onCanvas x y = true) : ¬(s.rowBytes = 0 ∨ s.height = 0) := by
  have hc := (onCanvas_iff s x y).mp hon
  have hfits := s.fits
  have hbytes : 0 < s.colorType.bytesPerPixel := by cases s.colorType <;> decide
  have hmul := Nat.mul_pos hbytes (show 0 < s.width by omega)
  omega

/-- The ways that noise the whole canvas agree on every position. -/
theorem shown_whole {a : Readback k} (ha : a.view s = .whole) (hin : a.contains s x y = true)
    (hon : s.onCanvas x y = true) : a.shown s d x y = wholePixel s d x y := by
  have hstore := rowBytes_pos hon
  cases a with
  | getImageData r out =>
    have hout : out = .rgba8888 := by
      by_contra hne
      simp [Readback.view, hne] at ha
    rw [hout]
    exact getImageData_whole hin hon
  | readPixels r rgbaBytes => cases rgbaBytes <;> cases ha
  | toDataURL =>
    have hbytes : s.colorType ≠ .rgbaF16 := by
      intro htype
      simp [Readback.view, htype] at ha
    change toDataURL s d x y = _
    rw [toDataURL, if_neg hstore]
    exact pixelOf_backing hbytes hon
  | toBlob =>
    have hbytes : s.colorType ≠ .rgbaF16 := by
      intro htype
      simp [Readback.view, htype] at ha
    have hopen : ¬(s.rowBytes = 0 ∨ s.height = 0 ∨
        (s.colorType ≠ .bgra8888 ∧ s.colorType ≠ .rgba8888)) := by
      rintro (h | h | ⟨hb, hr⟩)
      · exact hstore (.inl h)
      · exact hstore (.inr h)
      · cases htype : s.colorType with
        | rgba8888 => exact hr htype
        | bgra8888 => exact hb htype
        | rgbaF16 => exact hbytes htype
    change toBlob s d x y = _
    rw [toBlob, if_neg hopen]
    exact pixelOf_backing hbytes hon

/-- What is left alone is the pixel itself. -/
theorem shown_untouched {a : Readback k} (ha : a.view s = .untouched)
    (hon : s.onCanvas x y = true) : a.shown s d x y = s.pixel d x y := by
  have hc := (onCanvas_iff s x y).mp hon
  cases a with
  | getImageData r out =>
    have hout : out ≠ .rgba8888 := by
      rintro rfl
      cases ha
    exact if_neg fun h => hout h.1
  | readPixels r rgbaBytes =>
    cases rgbaBytes with
    | true => cases ha
    | false =>
      have hon' : s.onCanvas x (s.height - 1 - y) = true := by
        rw [onCanvas_iff]
        omega
      have hback : (s.height : ℤ) - 1 - (s.height - 1 - y) = y := by omega
      change readPixels s d r false x (s.height - 1 - y) = _
      rw [readPixels, if_neg fun h => Bool.false_ne_true h.1, glPixel, if_pos hon', hback]
  | toDataURL =>
    simp only [Readback.view] at ha
    split at ha <;> cases ha
  | toBlob =>
    have htype : s.colorType = .rgbaF16 := by
      by_contra hne
      simp [Readback.view, hne] at ha
    change toBlob s d x y = _
    exact if_pos (.inr (.inr ⟨by rw [htype]; decide, by rw [htype]; decide⟩))

/-- A rectangle that WebGL reads is its own world. -/
theorem shown_region {a : Readback k} {r : Area} (ha : a.view s = .region r)
    (hin : a.contains s x y = true) (hon : s.onCanvas x y = true) :
    a.shown s d x y = regionPixel s d r x (s.height - 1 - y) := by
  cases a with
  | getImageData r' out =>
    simp only [Readback.view] at ha
    split at ha <;> cases ha
  | toDataURL =>
    simp only [Readback.view] at ha
    split at ha <;> cases ha
  | toBlob =>
    simp only [Readback.view] at ha
    split at ha <;> cases ha
  | readPixels r' rgbaBytes =>
    cases rgbaBytes with
    | false => cases ha
    | true =>
      cases ha
      have hc := (onCanvas_iff s x y).mp hon
      have hr := (has_iff r x (s.height - 1 - y)).mp hin
      exact readPixels_region hin (by omega) (by omega)

end Shown

end FuryBrowser.CanvasReads
