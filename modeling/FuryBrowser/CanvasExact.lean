import FuryBrowser.CanvasDraws

/-!
# What a canvas without noise shows

Machines agree on clearing, on opaque unclipped fills of whole pixels and on opaque copies
that neither scale nor leave the pixel grid. Noise is left out when every draw since the last
reset was judged exact. The judgement looks neither at the fill colour's own alpha nor at the
clip nor at the pixels that are copied: exact reads are the same on all machines when those
are opaque and unclipped, and only then.
-/

namespace FuryBrowser.CanvasDraws

open MarkedContents

namespace Draw

/-- Nothing is blurred, blended in or cut by a clip. -/
structure Plain (s : DrawState) : Prop where
  shadow : s.shouldDrawShadows = false
  filter : s.filter = .none
  /-- No opacity of the state. -/
  alpha : s.globalAlpha = 1
  composite : s.globalComposite = .srcOver
  clip : s.clip = []

/-- On the canvas the rectangle consists of whole pixels. -/
structure WholePixels (t : AffineTransform) (r : RectF) : Prop where
  /-- Its sides stay along the axes. -/
  upright : t.b = 0 ∧ t.c = 0
  /-- Its left and right edges lie between pixels. -/
  across : IsWhole (t.a * r.x + t.e) ∧ IsWhole (t.a * r.right + t.e)
  /-- Its upper and lower edges do. -/
  down : IsWhole (t.d * r.y + t.f) ∧ IsWhole (t.d * r.bottom + t.f)

/-- A rectangle of pixels is copied onto as many pixels. -/
structure Unscaled (t : AffineTransform) (src dst : RectF) : Prop where
  /-- The source's pixels are whole ones. -/
  source : IsWhole src.x ∧ IsWhole src.y
  /-- So are those of the canvas. -/
  target : WholePixels t dst
  /-- The sizes are the same. -/
  size : src.width = t.a * dst.width ∧ src.height = t.d * dst.height

/-- The draws that all machines agree on. -/
def Exact (s : DrawState) : Draw → Prop
  | fillRect r =>
    Plain s ∧ WholePixels s.transform r ∧ ∃ c : Color, s.fillStyle = .color c ∧ c.alpha = 1
  | putImageData data _ _ => data.isOpaque
  | drawImage source src dst =>
    Plain s ∧ source.content.isOpaque ∧ Unscaled s.transform src dst
  | _ => False

/-- What is put on the canvas is opaque, and no clip cuts it. -/
def Covers (s : DrawState) : Draw → Prop
  | fillRect _ => s.clip = [] ∧ ∃ c : Color, s.fillStyle = .color c ∧ c.alpha = 1
  | putImageData data _ _ => data.isOpaque
  | drawImage source _ _ => s.clip = [] ∧ source.content.isOpaque
  | _ => False

/-- The judgement made of the draw when the page makes it. -/
def noted (s : DrawState) : Draw → Bool
  | drawImage source src dst =>
    platformDependent s (exactImageDraw source src dst) .image .image dst
  | d => platformDependent s false d.paintType d.drawType d.bounds

end Draw

/-- Two machines that agree on clearing, and on the draws on which all do. -/
structure Rasteriser.Agree (R₁ R₂ : Rasteriser) : Prop where
  /-- A canvas starts out the same. -/
  blank : R₁.blank = R₂.blank
  clearRect : R₁.clearRect = R₂.clearRect
  draw : ∀ s d, Draw.Exact s d → R₁.draw s d = R₂.draw s d

section Judgement

variable {s : DrawState}

theorem isFilterNone (hu : s.isFilterUnresolved = false) (hr : s.isFilterResolved = false) :
    s.filter = .none := by
  cases hf : s.filter with
  | none => rfl
  | unresolved f => simp [DrawState.isFilterUnresolved, hf] at hu
  | resolved f => simp [DrawState.isFilterResolved, hf] at hr

theorem wholePixels_of_translation {r : RectF} (ht : s.wholeTranslation = true)
    (hx : IsWhole r.x) (hy : IsWhole r.y) (hright : IsWhole r.right)
    (hbottom : IsWhole r.bottom) : Draw.WholePixels s.transform r := by
  simp only [DrawState.wholeTranslation, AffineTransform.isIdentityOrTranslation,
    decide_eq_true_eq] at ht
  obtain ⟨⟨ha, hb, hc, hd⟩, he, hf⟩ := ht
  refine ⟨⟨hb, hc⟩, ⟨?_, ?_⟩, ?_, ?_⟩
  · rw [ha, one_mul]
    exact hx.add (isWhole_of_eq_stdRound he)
  · rw [ha, one_mul]
    exact hright.add (isWhole_of_eq_stdRound he)
  · rw [hd, one_mul]
    exact hy.add (isWhole_of_eq_stdRound hf)
  · rw [hd, one_mul]
    exact hbottom.add (isWhole_of_eq_stdRound hf)

/-- A fill judged exact is one all machines agree on if it covers what it paints. -/
theorem exact_fillRect {r : RectF} (hn : Draw.noted s (.fillRect r) = false) :
    Draw.Exact s (.fillRect r) ↔ Draw.Covers s (.fillRect r) := by
  constructor
  · intro h
    exact ⟨h.1.clip, h.2.2⟩
  · rintro ⟨hclip, hcolor⟩
    simp only [Draw.noted, Draw.paintType, Draw.drawType, Draw.bounds, platformDependent,
      reduceCtorEq, false_and, if_false, true_and, if_true, Bool.or_eq_false_iff,
      Bool.not_eq_false', Bool.and_eq_true, decide_eq_false_iff_not, not_not, ne_eq] at hn
    obtain ⟨⟨⟨⟨⟨⟨⟨hmove, hedges⟩, -⟩, hshadow⟩, hunresolved⟩, hresolved⟩, halpha⟩, hover⟩ := hn
    simp only [RectF.wholeEdges, decide_eq_true_eq] at hedges
    obtain ⟨hx, hy, hright, hbottom⟩ := hedges
    exact ⟨⟨hshadow, isFilterNone hunresolved hresolved, halpha, hover, hclip⟩,
      wholePixels_of_translation hmove (isWhole_of_eq_stdRound hx) (isWhole_of_eq_stdRound hy)
        (isWhole_of_eq_stdRound hright) (isWhole_of_eq_stdRound hbottom), hcolor⟩

theorem exact_drawImage {source : CanvasImageSource} {src dst : RectF}
    (hn : Draw.noted s (.drawImage source src dst) = false) :
    Draw.Exact s (.drawImage source src dst) ↔ Draw.Covers s (.drawImage source src dst) := by
  constructor
  · intro h
    exact ⟨h.1.clip, h.2.1⟩
  · rintro ⟨hclip, hopaque⟩
    have himage : exactImageDraw source src dst = true := by
      by_contra hnot
      simp [Draw.noted, platformDependent, hnot] at hn
    simp only [Draw.noted, platformDependent, reduceCtorEq, himage, and_self, if_false, if_true,
      Bool.or_eq_false_iff, Bool.not_eq_false', decide_eq_false_iff_not, not_not, ne_eq] at hn
    obtain ⟨⟨⟨⟨⟨hmove, hshadow⟩, hunresolved⟩, hresolved⟩, halpha⟩, hover⟩ := hn
    simp only [exactImageDraw, decide_eq_true_eq] at himage
    obtain ⟨-, -, ⟨hwidth, hheight⟩, hsx, hsy, hx, hy, hw, hh⟩ := himage
    have hx' := isWhole_of_eq_stdRound hx
    have hy' := isWhole_of_eq_stdRound hy
    have hone := hmove
    simp only [DrawState.wholeTranslation, AffineTransform.isIdentityOrTranslation,
      decide_eq_true_eq] at hone
    obtain ⟨⟨ha, -, -, hd⟩, -⟩ := hone
    refine ⟨⟨hshadow, isFilterNone hunresolved hresolved, halpha, hover, hclip⟩, hopaque,
      ⟨isWhole_of_eq_stdRound hsx, isWhole_of_eq_stdRound hsy⟩, ?_, ?_⟩
    · exact wholePixels_of_translation hmove hx' hy' (hx'.add (isWhole_of_eq_stdRound hw))
        (hy'.add (isWhole_of_eq_stdRound hh))
    · rw [ha, hd, one_mul, one_mul]
      exact ⟨hwidth, hheight⟩

/-- Of the draws that are judged exact, machines agree on those that cover. -/
theorem exact_iff_covers {d : Draw} (hn : Draw.noted s d = false) :
    Draw.Exact s d ↔ Draw.Covers s d := by
  cases d with
  | fillRect r => exact exact_fillRect hn
  | drawImage source src dst => exact exact_drawImage hn
  | putImageData data x y => exact Iff.rfl
  | strokeRect r => exact Iff.rfl
  | other paint shape r => exact Iff.rfl

/-- A fill that a clip cuts, in a colour that is not opaque, is judged exact. -/
example : Draw.noted { DrawState.initial with
    clip := [[(0, 0), (3, 1), (1, 3)]]
    fillStyle := .color ⟨0, 0, 0, 1 / 2⟩ } (.fillRect ⟨0, 0, 4, 4⟩) = false := by
  decide +kernel

end Judgement

/-- What changes the pixels: clearing and drawing, each with the state it happens in. -/
inductive Change
  /-- A rectangle is cleared. -/
  | clear (s : DrawState) (r : RectF)
  | draw (s : DrawState) (d : Draw)

namespace Change

/-- Machines agree on clearing and on exact draws. -/
def Same : Change → Prop
  | clear _ _ => True
  | draw s d => Draw.Exact s d

/-- Draws are judged; clearing is not. -/
def noted : Change → Bool
  | clear _ _ => false
  | draw s d => d.noted s

/-- What a machine makes of a change. -/
def made (R : Rasteriser) : Change → Canvas → Canvas
  | clear s r => R.clearRect s r
  | draw s d => R.draw s d

end Change

/-- What an operation does to the pixels. -/
def StateStack.event (s : StateStack) : Op → Option (Event Change)
  | .draw d => some (.apply (.draw s.state d))
  | .clearRect r => some (.apply (.clear s.state r))
  | .reset => some .restart
  | _ => none

/-- What a page's operations do to the pixels. -/
def history (s : StateStack) : List Op → List (Event Change)
  | [] => []
  | op :: ops => (s.event op).toList ++ history (s.step op) ops

/-- The draws since the last reset, each with the state it happened in. -/
def drawn (ops : List Op) : List (DrawState × Draw) :=
  (since (history .initial ops)).filterMap fun change => match change with
    | .clear _ _ => none
    | .draw s d => some (s, d)

section Runs

variable (R : Rasteriser)

theorem furyNoteDraw_flag (h : CanvasRenderingContextHost) (b : Bool) :
    (h.furyNoteDraw b).furyPlatformDependentDraw = (h.furyPlatformDependentDraw || b) := by
  cases b <;> simp [CanvasRenderingContextHost.furyNoteDraw]

theorem furyNoteDraw_2d (h : CanvasRenderingContextHost) (b : Bool) :
    (h.furyNoteDraw b).isRenderingContext2D = h.isRenderingContext2D := by
  cases b <;> rfl

/-- The exact image flag is only looked at while an image is drawn. -/
theorem draw_eq (c : Context) (d : Draw) (hf : c.furyExactImageDraw = false) :
    c.draw R d = { c with
      host := c.host.furyNoteDraw (d.noted c.stack.state)
      pixels := R.draw c.stack.state d c.pixels } := by
  obtain ⟨stack, host, flag, pixels⟩ := c
  cases hf
  cases d <;> rfl

/-- One operation: the states, the mark and the pixels move on as the history says. -/
theorem step_spec (c : Context) (op : Op) (hf : c.furyExactImageDraw = false) :
    (c.step R op).stack = c.stack.step op ∧
    (c.step R op).furyExactImageDraw = false ∧
    (c.step R op).host.isRenderingContext2D = c.host.isRenderingContext2D ∧
    (c.step R op).host.furyPlatformDependentDraw =
      replay false (fun b change => b || change.noted) c.host.furyPlatformDependentDraw
        (c.stack.event op).toList ∧
    (c.step R op).pixels =
      replay R.blank (fun p change => change.made R p) c.pixels (c.stack.event op).toList := by
  cases op with
  | draw d =>
    have hstep : c.step R (.draw d) = c.draw R d := rfl
    rw [hstep, draw_eq R c d hf]
    exact ⟨rfl, hf, furyNoteDraw_2d _ _, furyNoteDraw_flag _ _, rfl⟩
  | clearRect r => exact ⟨rfl, hf, rfl, (Bool.or_false _).symm, rfl⟩
  | reset => exact ⟨rfl, hf, rfl, rfl, rfl⟩
  | _ => exact ⟨rfl, hf, rfl, rfl, rfl⟩

theorem run_spec (ops : List Op) (c : Context) (hf : c.furyExactImageDraw = false) :
    (ops.foldl (Context.step R) c).host.isRenderingContext2D = c.host.isRenderingContext2D ∧
    (ops.foldl (Context.step R) c).host.furyPlatformDependentDraw =
      replay false (fun b change => b || change.noted) c.host.furyPlatformDependentDraw
        (history c.stack ops) ∧
    (ops.foldl (Context.step R) c).pixels =
      replay R.blank (fun p change => change.made R p) c.pixels (history c.stack ops) := by
  induction ops generalizing c with
  | nil => exact ⟨rfl, rfl, rfl⟩
  | cons op ops ih =>
    obtain ⟨hstack, hflag, h2d, hmark, hpixels⟩ := step_spec R c op hf
    obtain ⟨ih2d, ihmark, ihpixels⟩ := ih (c.step R op) hflag
    rw [List.foldl_cons]
    refine ⟨ih2d.trans h2d, ?_, ?_⟩
    · rw [ihmark, hmark, hstack, history, replay_append]
    · rw [ihpixels, hpixels, hstack, history, replay_append]

/-- Noise is wanted when a draw since the last reset was judged to need it. -/
theorem wantsNoise_after (ops : List Op) :
    (Context.after R ops).host.furyWantsCanvasNoise =
      marked Change.noted (history .initial ops) := by
  obtain ⟨h2d, hmark, -⟩ := run_spec R ops (Context.initial R) rfl
  rw [CanvasRenderingContextHost.furyWantsCanvasNoise, Context.after, h2d, hmark]
  rfl

/-- The pixels are what the machine makes of the history. -/
theorem pixels_after (ops : List Op) :
    (Context.after R ops).pixels =
      contents R.blank (Change.made R) (history .initial ops) :=
  (run_spec R ops (Context.initial R) rfl).2.2

end Runs

section Machines

instance : Nontrivial Pixel := ⟨⟨0, 0, 0, 0⟩, ⟨0, 0, 0, 255⟩, by decide⟩

/-- Nothing on it. -/
def transparent : Canvas := fun _ _ => ⟨0, 0, 0, 0⟩

/-- The rasteriser that makes changes as given. -/
def rasteriser (blank : Canvas) (m : Change → Canvas → Canvas) : Rasteriser where
  blank := blank
  clearRect s r := m (.clear s r)
  draw s d := m (.draw s d)

theorem made_rasteriser (blank : Canvas) (m : Change → Canvas → Canvas) :
    Change.made (rasteriser blank m) = m := by
  funext change
  cases change <;> rfl

theorem agree_rasteriser {blank : Canvas} {m₁ m₂ : Change → Canvas → Canvas}
    (h : ∀ change, Change.Same change → m₁ change = m₂ change) :
    (rasteriser blank m₁).Agree (rasteriser blank m₂) where
  blank := rfl
  clearRect := by
    funext s r
    exact h (.clear s r) trivial
  draw s d hd := h (.draw s d) hd

theorem made_agree {R₁ R₂ : Rasteriser} (h : R₁.Agree R₂) (change : Change)
    (hs : Change.Same change) : Change.made R₁ change = Change.made R₂ change := by
  cases change with
  | clear s r => exact congrFun (congrFun h.clearRect s) r
  | draw s d => exact h.draw s d hs

end Machines

theorem mem_drawn {ops : List Op} {s : DrawState} {d : Draw} :
    (s, d) ∈ drawn ops ↔ Change.draw s d ∈ since (history .initial ops) := by
  rw [drawn, List.mem_filterMap]
  constructor
  · rintro ⟨change, hmem, hsome⟩
    cases change with
    | clear => cases hsome
    | draw =>
      cases hsome
      exact hmem
  · intro h
    exact ⟨_, h, rfl⟩

theorem exists_noted_iff (ops : List Op) :
    (∃ change ∈ since (history .initial ops), change.noted = true) ↔
      ∃ x ∈ drawn ops, x.2.noted x.1 = true := by
  constructor
  · rintro ⟨change, hmem, hn⟩
    cases change with
    | clear => cases hn
    | draw s d => exact ⟨(s, d), mem_drawn.mpr hmem, hn⟩
  · rintro ⟨⟨s, d⟩, hmem, hn⟩
    exact ⟨.draw s d, mem_drawn.mp hmem, hn⟩

theorem forall_same_iff (ops : List Op) :
    (∀ change ∈ since (history .initial ops), change.Same) ↔
      ∀ x ∈ drawn ops, x.2.Exact x.1 := by
  constructor
  · rintro h ⟨s, d⟩ hmem
    exact h _ (mem_drawn.mp hmem)
  · intro h change hmem
    cases change with
    | clear => trivial
    | draw s d => exact h (s, d) (mem_drawn.mpr hmem)

/-- Where nothing was noted, the draws are all exact if they all cover. -/
theorem noted_or_exact_iff (draws : List (DrawState × Draw)) :
    ((∃ x ∈ draws, x.2.noted x.1 = true) ∨ ∀ x ∈ draws, x.2.Exact x.1) ↔
      (∃ x ∈ draws, x.2.noted x.1 = true) ∨ ∀ x ∈ draws, x.2.Covers x.1 := by
  by_cases hn : ∃ x ∈ draws, x.2.noted x.1 = true
  · simp only [hn, true_or]
  · have hquiet : ∀ x ∈ draws, x.2.noted x.1 = false := by
      intro x hx
      rw [← Bool.not_eq_true]
      exact fun h => hn ⟨x, hx, h⟩
    simp only [hn, false_or]
    exact forall₂_congr fun x hx => exact_iff_covers (hquiet x hx)

/-- A canvas that is read without noise is the same on every two machines exactly when a draw
since the last reset is judged to need noise, or each of them is opaque and unclipped. -/
theorem unnoised_same_iff_covers (ops : List Op) :
    (∀ R₁ R₂ : Rasteriser, R₁.Agree R₂ →
      (Context.after R₁ ops).host.furyWantsCanvasNoise = false →
      (Context.after R₁ ops).pixels = (Context.after R₂ ops).pixels) ↔
    (∃ x ∈ drawn ops, x.2.noted x.1 = true) ∨ ∀ x ∈ drawn ops, x.2.Covers x.1 := by
  rw [← noted_or_exact_iff, ← exists_noted_iff, ← forall_same_iff]
  constructor
  · intro h
    refine (unmarked_agree_iff Change.Same Change.noted transparent _).mp
      fun m₁ m₂ hagree hquiet => ?_
    have hpixels := h (rasteriser transparent m₁) (rasteriser transparent m₂)
      (agree_rasteriser hagree) ((wantsNoise_after _ ops).trans hquiet)
    rwa [pixels_after, pixels_after, made_rasteriser, made_rasteriser] at hpixels
  · intro h R₁ R₂ hagree hquiet
    rw [wantsNoise_after] at hquiet
    rw [pixels_after, pixels_after, ← hagree.blank]
    exact (unmarked_agree_iff Change.Same Change.noted R₁.blank _).mpr h _ _
      (made_agree hagree) hquiet

/-- A machine that fills with the fill colour's alpha, made a byte in its own way. -/
def alphaFilling (toByte : ℚ → ℕ) : Rasteriser where
  blank := transparent
  clearRect _ _ c := c
  draw s d c :=
    match d, s.fillStyle with
    | .fillRect _, .color color => fun _ _ => ⟨0, 0, 0, toByte (255 * color.alpha)⟩
    | _, _ => c

/-- One machine rounds down, the other up; they agree on opaque colours. -/
theorem alphaFilling_agree :
    (alphaFilling fun q => ⌊q⌋.toNat).Agree (alphaFilling fun q => ⌈q⌉.toNat) where
  blank := rfl
  clearRect := rfl
  draw s d hd := by
    cases d with
    | fillRect r =>
      obtain ⟨-, -, color, hcolor, halpha⟩ := hd
      funext c x y
      simp only [alphaFilling, hcolor, halpha]
      decide +kernel
    | _ => rfl

/-- Half transparent black. -/
def halfBlack : Color := ⟨0, 0, 0, 1 / 2⟩

/-- A page fills one pixel with half transparent black: no noise is wanted, and the machines
show different pixels. -/
theorem translucent_fill_unnoised :
    ¬ ∀ (ops : List Op) (R₁ R₂ : Rasteriser), R₁.Agree R₂ →
      (Context.after R₁ ops).host.furyWantsCanvasNoise = false →
      (Context.after R₁ ops).pixels = (Context.after R₂ ops).pixels := by
  intro h
  have heq := h [.setFillStyle (.color halfBlack), .draw (.fillRect ⟨0, 0, 1, 1⟩)] _ _
    alphaFilling_agree (by decide +kernel)
  have hzero := congrArg Pixel.alpha (congrFun (congrFun heq 0) 0)
  revert hzero
  decide +kernel

end FuryBrowser.CanvasDraws
