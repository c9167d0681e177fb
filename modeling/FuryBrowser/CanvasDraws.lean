import FuryBrowser.MarkedContents
import Mathlib.Data.Rat.Floor

/-!
# Which draws put noise on a 2D canvas

The canvas's host remembers whether anything was drawn that a machine renders its own way.
Each draw is judged from the drawing state it happens in; a reset forgets what was drawn.
Only a canvas that remembers such a draw is read with noise.

The drawing itself is a machine's: a rasteriser is any function of the drawing state, the
draw and the pixels there are. Coordinates and transforms are finite, hence rational.
-/

namespace FuryBrowser.CanvasDraws

open MarkedContents

/-- `std::round`: to the nearest whole number, halves away from zero. -/
def stdRound (x : ℚ) : ℚ := if 0 ≤ x then (⌊x + 1 / 2⌋ : ℤ) else (⌈x - 1 / 2⌉ : ℤ)

/-- A whole number. -/
def IsWhole (x : ℚ) : Prop := x.den = 1

instance (x : ℚ) : Decidable (IsWhole x) := inferInstanceAs (Decidable (x.den = 1))

theorem isWhole_of_eq_stdRound {x : ℚ} (h : x = stdRound x) : IsWhole x := by
  rw [stdRound] at h
  split at h <;> (rw [h]; rfl)

theorem IsWhole.add {x y : ℚ} (hx : IsWhole x) (hy : IsWhole y) : IsWhole (x + y) := by
  rw [← Rat.coe_int_num_of_den_eq_one hx, ← Rat.coe_int_num_of_den_eq_one hy, ← Int.cast_add]
  rfl

/-- A transform: `x` goes to `a x + c y + e`, `y` to `b x + d y + f`. -/
structure AffineTransform where
  a : ℚ
  b : ℚ
  c : ℚ
  d : ℚ
  e : ℚ
  f : ℚ
  deriving DecidableEq

/-- The identity. -/
def AffineTransform.identity : AffineTransform := ⟨1, 0, 0, 1, 0, 0⟩

/-- `IsIdentityOrTranslation`. -/
def AffineTransform.isIdentityOrTranslation (t : AffineTransform) : Bool :=
  t.a = 1 ∧ t.b = 0 ∧ t.c = 0 ∧ t.d = 1

/-- A rectangle, in the coordinates of the page. -/
structure RectF where
  x : ℚ
  y : ℚ
  width : ℚ
  height : ℚ
  deriving DecidableEq

/-- The right edge. -/
def RectF.right (r : RectF) : ℚ := r.x + r.width

/-- The bottom edge. -/
def RectF.bottom (r : RectF) : ℚ := r.y + r.height

/-- A colour; `alpha` is 1 when it is opaque. -/
structure Color where
  red : ℚ
  green : ℚ
  blue : ℚ
  alpha : ℚ
  deriving DecidableEq

/-- What a fill or a stroke paints with; gradients and patterns are numbered. -/
inductive CanvasStyle
  | color (c : Color)
  | gradient (g : ℕ)
  | pattern (p : ℕ)
  deriving DecidableEq

/-- How what is drawn is combined with what is there; the other modes are numbered. -/
inductive SkBlendMode
  | srcOver
  | other (mode : ℕ)
  deriving DecidableEq

/-- The filter of a state: none, one that is still to be resolved, or a resolved one. -/
inductive Filter
  | none
  | unresolved (filter : ℕ)
  | resolved (filter : ℕ)
  deriving DecidableEq

/-- A path, as its points. -/
abbrev Path := List (ℚ × ℚ)

/-- What draws are done with. -/
structure DrawState where
  transform : AffineTransform
  /-- The clips that hold, one inside the other. -/
  clip : List Path
  fillStyle : CanvasStyle
  /-- What strokes paint with. -/
  strokeStyle : CanvasStyle
  /-- An opacity for everything drawn. -/
  globalAlpha : ℚ
  /-- How what is drawn is blended in. -/
  globalComposite : SkBlendMode
  shouldDrawShadows : Bool
  filter : Filter
  deriving DecidableEq

/-- Opaque black. -/
def black : Color := ⟨0, 0, 0, 1⟩

/-- The state of a new canvas. -/
def DrawState.initial : DrawState :=
  ⟨.identity, [], .color black, .color black, 1, .srcOver, false, .none⟩

/-- What a draw paints with. -/
inductive PaintType
  | fill
  | stroke
  | image
  deriving DecidableEq

/-- What a draw is, as far as its noise is concerned. -/
inductive DrawType
  | imageData
  | image
  | rectangle
  | other
  deriving DecidableEq

/-- A pixel, a byte a channel. -/
structure Pixel where
  red : ℕ
  green : ℕ
  blue : ℕ
  alpha : ℕ
  deriving DecidableEq

/-- Decoded pixels. -/
structure Bitmap where
  width : ℕ
  pixels : List Pixel
  deriving DecidableEq

/-- Every pixel is opaque. -/
def Bitmap.isOpaque (b : Bitmap) : Bool := b.pixels.all (·.alpha = 255)

/-- What `drawImage` is given. -/
structure CanvasImageSource where
  /-- It is an image element, not a canvas, a video, a frame or a bitmap. -/
  isImageElement : Bool
  /-- There is an image and it is a decoded one, not an SVG. -/
  isBitmapImage : Bool
  content : Bitmap
  deriving DecidableEq

/-- A draw of the page. -/
inductive Draw
  | fillRect (bounds : RectF)
  | strokeRect (bounds : RectF)
  | putImageData (data : Bitmap) (x y : ℤ)
  /-- `drawImage` of a part of the source into a rectangle. -/
  | drawImage (source : CanvasImageSource) (src dst : RectF)
  /-- A path, a text or a mesh. -/
  | other (paint : PaintType) (shape : Path) (bounds : RectF)
  deriving DecidableEq

namespace Draw

/-- What the draw paints with. -/
def paintType : Draw → PaintType
  | fillRect _ => .fill
  | strokeRect _ => .stroke
  | putImageData .. => .image
  | drawImage .. => .image
  | other paint .. => paint

/-- What kind of draw it is. -/
def drawType : Draw → DrawType
  | fillRect _ => .rectangle
  | strokeRect _ => .rectangle
  | putImageData .. => .imageData
  | drawImage .. => .image
  | other .. => .other

/-- The rectangle it covers. -/
def bounds : Draw → RectF
  | fillRect r => r
  | strokeRect r => r
  | putImageData data x y => ⟨x, y, data.width, data.pixels.length / data.width⟩
  | drawImage _ _ dst => dst
  | other _ _ r => r

end Draw

namespace DrawState

/-- `Style`: what the state paints with. -/
def style (s : DrawState) : PaintType → CanvasStyle
  | .stroke => s.strokeStyle
  | _ => s.fillStyle

/-- The transform moves by whole pixels and does nothing else. -/
def wholeTranslation (s : DrawState) : Bool :=
  s.transform.isIdentityOrTranslation ∧ s.transform.e = stdRound s.transform.e ∧
    s.transform.f = stdRound s.transform.f

/-- `IsFilterUnresolved`. -/
def isFilterUnresolved (s : DrawState) : Bool :=
  match s.filter with
  | .unresolved _ => true
  | _ => false

/-- `IsFilterResolved`. -/
def isFilterResolved (s : DrawState) : Bool :=
  match s.filter with
  | .resolved _ => true
  | _ => false

end DrawState

/-- The edges of the rectangle are on whole pixels. -/
def RectF.wholeEdges (r : RectF) : Bool :=
  r.x = stdRound r.x ∧ r.y = stdRound r.y ∧ r.right = stdRound r.right ∧
    r.bottom = stdRound r.bottom

/-- What `drawImage` sets `fury_exact_image_draw_` to. -/
def exactImageDraw (source : CanvasImageSource) (src dst : RectF) : Bool :=
  source.isImageElement ∧ source.isBitmapImage ∧
    (src.width = dst.width ∧ src.height = dst.height) ∧
    src.x = stdRound src.x ∧ src.y = stdRound src.y ∧
    dst.x = stdRound dst.x ∧ dst.y = stdRound dst.y ∧
    dst.width = stdRound dst.width ∧ dst.height = stdRound dst.height

/-- The judgement of `FuryNoteDraw`: does a machine render this its own way? -/
def platformDependent (state : DrawState) (furyExactImageDraw : Bool) (paintType : PaintType)
    (drawType : DrawType) (bounds : RectF) : Bool :=
  if drawType = .imageData then false
  else if drawType = .image ∧ furyExactImageDraw then
    !state.wholeTranslation || state.shouldDrawShadows || state.isFilterUnresolved ||
      state.isFilterResolved || state.globalAlpha ≠ 1 || state.globalComposite ≠ .srcOver
  else if drawType = .rectangle ∧ paintType = .fill then
    let style := state.style paintType
    !(state.wholeTranslation && bounds.wholeEdges) ||
      (match style with
        | .color _ => false
        | _ => true) ||
      state.shouldDrawShadows || state.isFilterUnresolved || state.isFilterResolved ||
      state.globalAlpha ≠ 1 || state.globalComposite ≠ .srcOver
  else true

/-- What the canvas's host remembers. -/
structure CanvasRenderingContextHost where
  /-- The context is a 2D one. -/
  isRenderingContext2D : Bool
  /-- Something was drawn that a machine renders its own way. -/
  furyPlatformDependentDraw : Bool
  deriving DecidableEq

namespace CanvasRenderingContextHost

/-- `FuryNoteDraw` of the host. -/
def furyNoteDraw (h : CanvasRenderingContextHost) (platformDependent : Bool) :
    CanvasRenderingContextHost :=
  if platformDependent then { h with furyPlatformDependentDraw := true } else h

/-- `FuryResetDraws`. -/
def furyResetDraws (h : CanvasRenderingContextHost) : CanvasRenderingContextHost :=
  { h with furyPlatformDependentDraw := false }

/-- `FuryWantsCanvasNoise`. -/
def furyWantsCanvasNoise (h : CanvasRenderingContextHost) : Bool :=
  !h.isRenderingContext2D || h.furyPlatformDependentDraw

end CanvasRenderingContextHost

/-- The pixels of a canvas. -/
abbrev Canvas := ℤ → ℤ → Pixel

/-- How a machine draws. -/
structure Rasteriser where
  /-- A canvas on which nothing was drawn. -/
  blank : Canvas
  clearRect : DrawState → RectF → Canvas → Canvas
  /-- Everything else that is drawn. -/
  draw : DrawState → Draw → Canvas → Canvas

/-- What a page does to its canvas. -/
inductive Op
  | save
  | restore
  /-- Sets the current transform. -/
  | setTransform (t : AffineTransform)
  /-- Clips to a path as well. -/
  | clip (path : Path)
  | setFillStyle (style : CanvasStyle)
  | setStrokeStyle (style : CanvasStyle)
  | setGlobalAlpha (alpha : ℚ)
  /-- Sets how draws are blended in. -/
  | setGlobalComposite (mode : SkBlendMode)
  /-- Sets whether shadows are drawn. -/
  | setShadows (drawn : Bool)
  | setFilter (filter : Filter)
  | clearRect (rect : RectF)
  | draw (d : Draw)
  /-- `reset()`, or the canvas's size assigned. -/
  | reset
  deriving DecidableEq

/-- The drawing state and the saved ones. -/
structure StateStack where
  state : DrawState
  /-- The states that were saved, the last one first. -/
  saved : List DrawState
  deriving DecidableEq

namespace StateStack

/-- The stack of a new canvas. -/
def initial : StateStack := ⟨.initial, []⟩

/-- What an operation does to the states. -/
def step (s : StateStack) : Op → StateStack
  | .save => { s with saved := s.state :: s.saved }
  | .restore =>
    match s.saved with
    | [] => s
    | state :: saved => ⟨state, saved⟩
  | .setTransform t => { s with state := { s.state with transform := t } }
  | .clip path => { s with state := { s.state with clip := path :: s.state.clip } }
  | .setFillStyle style => { s with state := { s.state with fillStyle := style } }
  | .setStrokeStyle style => { s with state := { s.state with strokeStyle := style } }
  | .setGlobalAlpha alpha => { s with state := { s.state with globalAlpha := alpha } }
  | .setGlobalComposite mode => { s with state := { s.state with globalComposite := mode } }
  | .setShadows drawn => { s with state := { s.state with shouldDrawShadows := drawn } }
  | .setFilter filter => { s with state := { s.state with filter := filter } }
  | .clearRect _ => s
  | .draw _ => s
  | .reset => initial

end StateStack

/-- A canvas and its 2D context. -/
structure Context where
  stack : StateStack
  host : CanvasRenderingContextHost
  furyExactImageDraw : Bool
  pixels : Canvas

namespace Context

variable (R : Rasteriser)

/-- A new canvas with a 2D context. -/
def initial : Context := ⟨.initial, ⟨true, false⟩, false, R.blank⟩

/-- `DrawInternal`: the draw is noted, then done. -/
def drawInternal (c : Context) (d : Draw) : Context :=
  { c with
    host := c.host.furyNoteDraw
      (platformDependent c.stack.state c.furyExactImageDraw d.paintType d.drawType d.bounds)
    pixels := R.draw c.stack.state d c.pixels }

/-- A draw; `drawImage` says whether it is an exact one for the time it draws. -/
def draw (c : Context) : Draw → Context
  | .drawImage source src dst =>
    let set := { c with furyExactImageDraw := exactImageDraw source src dst }
    { set.drawInternal R (.drawImage source src dst) with furyExactImageDraw := false }
  | d => c.drawInternal R d

/-- `ResetInternal`: the canvas is blank again, and what was drawn is forgotten. -/
def resetInternal (c : Context) : Context :=
  { c with stack := .initial, host := c.host.furyResetDraws, pixels := R.blank }

/-- What an operation does to the canvas. -/
def step (c : Context) (op : Op) : Context :=
  match op with
  | .draw d => c.draw R d
  | .clearRect rect => { c with pixels := R.clearRect c.stack.state rect c.pixels }
  | .reset => c.resetInternal R
  | op => { c with stack := c.stack.step op }

/-- The canvas after a page's operations. -/
def after (ops : List Op) : Context := ops.foldl (Context.step R) (initial R)

end Context

end FuryBrowser.CanvasDraws
