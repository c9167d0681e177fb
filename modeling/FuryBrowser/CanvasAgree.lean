import FuryBrowser.CanvasScenes

/-!
# When two ways to read a canvas agree

Two reads of one content agree on a position when both noise it in the same way, or when neither
moves it whatever is on the canvas. Everywhere else some content tells them apart.
-/

namespace FuryBrowser.CanvasReads

open CanvasDraws (Pixel)
open EdgeNoise

/-- What a view makes of a position's pixel. -/
def View.pixel (s : Surface) (d : Scene) (x y : ℤ) : View → Pixel
  | whole => wholePixel s d x y
  | untouched => s.pixel d x y
  | halves => halvesPixel s d x y
  | region r => regionPixel s d r x (s.height - 1 - y)

/-- The view moves the position on no canvas: it has no neighbours that are looked at, or the noise
does not reach it. -/
def View.Idle (s : Surface) (x y : ℤ) : View → Prop
  | whole => s.around x y = []
  | untouched => True
  | halves => s.around x y = [] ∨ (s.width : ℤ) ≤ 2 * x
  | region r => beside r x (s.height - 1 - y) = []

/-- The views move the position in the same way: rectangles of WebGL hold the same neighbours of
it, all of them on the canvas. -/
def View.Same (s : Surface) (x y : ℤ) : View → View → Prop
  | whole, whole => True
  | halves, halves => True
  | region r, region r' => beside r x (s.height - 1 - y) = beside r' x (s.height - 1 - y) ∧
      ∀ q ∈ beside r x (s.height - 1 - y), s.onCanvas q.1 q.2 = true
  | _, _ => False

/-- Two reads treat a position alike. -/
def Alike (s : Surface) {k : ContextKind} (a b : Readback k) (x y : ℤ) : Prop :=
  View.Same s x y (a.view s) (b.view s) ∨ (a.view s).Idle s x y ∧ (b.view s).Idle s x y

/-- Two reads of one content give the same pixel at every position that both contain, each into an
array of its own. -/
def Agree (s : Surface) (half : List ℕ → Pixel) {k : ContextKind} (a b : Readback k) : Prop :=
  ∀ d d' : Scene, d.Drawn s half → d'.Drawn s half → d.seed = d'.seed → d.memory = d'.memory →
    ∀ x y, s.onCanvas x y = true → a.contains s x y = true → b.contains s x y = true →
      a.shown s d x y = b.shown s d' x y

section Views

variable {s : Surface} {half : List ℕ → Pixel} {d d' : Scene} {x y : ℤ} {k : ContextKind}
  {a : Readback k} {v w : View}

theorem view_halves (ha : a.view s = .halves) : s.colorType = .rgbaF16 := by
  by_contra hne
  cases a with
  | getImageData r out =>
    simp only [Readback.view] at ha
    split at ha <;> cases ha
  | readPixels r rgbaBytes => cases rgbaBytes <;> cases ha
  | toDataURL => simp [Readback.view, hne] at ha
  | toBlob => simp [Readback.view, hne] at ha

theorem shown_halves (ha : a.view s = .halves) (hon : s.onCanvas x y = true) :
    a.shown s d x y = halvesPixel s d x y := by
  cases a with
  | getImageData r out =>
    simp only [Readback.view] at ha
    split at ha <;> cases ha
  | readPixels r rgbaBytes => cases rgbaBytes <;> cases ha
  | toDataURL =>
    change toDataURL s d x y = _
    rw [toDataURL, if_neg (rowBytes_pos hon)]
    rfl
  | toBlob =>
    simp only [Readback.view] at ha
    split at ha <;> cases ha

/-- A page is shown what the view makes of the pixel. -/
theorem shown_eq (hin : a.contains s x y = true) (hon : s.onCanvas x y = true) :
    a.shown s d x y = (a.view s).pixel s d x y := by
  cases hview : a.view s with
  | whole => exact shown_whole hview hin hon
  | untouched => exact shown_untouched hview hon
  | halves => exact shown_halves hview hon
  | region r => exact shown_region hview hin hon

/-- The position counted from below is on the canvas too. -/
theorem glPixel_onCanvas (hon : s.onCanvas x y = true) :
    glPixel s d x (s.height - 1 - y) = s.pixel d x y := by
  have hc := (onCanvas_iff s x y).mp hon
  have hon' : s.onCanvas x (s.height - 1 - y) = true := by
    rw [onCanvas_iff]
    omega
  have hback : (s.height : ℤ) - 1 - (s.height - 1 - y) = y := by omega
  rw [glPixel, if_pos hon', hback]

/-- A view that does not move a position hands it out. -/
theorem View.pixel_idle (htype : v = .halves → s.colorType = .rgbaF16) (hon : s.onCanvas x y = true)
    (hidle : v.Idle s x y) : v.pixel s d x y = s.pixel d x y := by
  cases v with
  | whole =>
    have hnil : s.around x y = [] := hidle
    change wholePixel s d x y = _
    rw [wholePixel, hnil, List.map_nil, noisePixel_nil]
  | untouched => rfl
  | halves => exact halvesPixel_idle (htype rfl) hon hidle
  | region r =>
    have hnil : beside r x (s.height - 1 - y) = [] := hidle
    change regionPixel s d r x (s.height - 1 - y) = _
    rw [regionPixel, hnil, List.map_nil, noisePixel_nil, glPixel_onCanvas hon]

/-- Views that move a position in the same way hand out the same. -/
theorem View.pixel_same (hseed : d.seed = d'.seed) (hmemory : d.memory = d'.memory)
    (hhalf : d.half = d'.half) (hon : s.onCanvas x y = true) (hsame : View.Same s x y v w) :
    v.pixel s d x y = w.pixel s d' x y := by
  have hpixel (u v : ℤ) : s.pixel d u v = s.pixel d' u v := by
    rw [Surface.pixel, Surface.pixel, hmemory, hhalf]
  cases v with
  | whole =>
    cases w with
    | whole =>
      change wholePixel s d x y = wholePixel s d' x y
      simp only [wholePixel, hseed, hpixel]
    | _ => cases hsame
  | untouched => cases hsame
  | halves =>
    cases w with
    | halves =>
      have hcall : backingCall s d = backingCall s d' := by
        rw [backingCall, backingCall, hseed, hmemory]
      change halvesPixel s d x y = halvesPixel s d' x y
      rw [halvesPixel, halvesPixel, noisedBacking, noisedBacking, hcall, hhalf]
    | _ => cases hsame
  | region r =>
    cases w with
    | region r' =>
      obtain ⟨heq, hall⟩ := hsame
      have hgl (q : ℤ × ℤ) (hq : s.onCanvas q.1 q.2 = true) :
          glPixel s d q.1 q.2 = glPixel s d' q.1 q.2 := by
        rw [glPixel, glPixel, if_pos hq, if_pos hq, hpixel]
      have hothers : (beside r x (s.height - 1 - y)).map (fun q => glPixel s d q.1 q.2) =
          (beside r x (s.height - 1 - y)).map fun q => glPixel s d' q.1 q.2 :=
        List.map_congr_left fun q hq => hgl q (hall q hq)
      change regionPixel s d r x _ = regionPixel s d' r' x _
      rw [regionPixel, regionPixel, hseed, hothers, heq, glPixel_onCanvas hon,
        glPixel_onCanvas hon, hpixel]
    | _ => cases hsame

end Views

section Moved

variable {s : Surface} {half : List ℕ → Pixel} {d : Scene} {r : Area} {x y : ℤ}

theorem recovered_grey (h : UInt64) :
    (recovered h grey.pixel).alpha = 129 ∨ (recovered h grey.pixel).alpha = 127 :=
  moved_eq h (by decide) (by decide)

/-- A grey pixel among clear ones moves as part of the whole canvas. -/
theorem wholePixel_grey (hbit : EdgeNoise.hash d.seed x y &&& 1 = 0)
    (hself : s.pixel d x y = grey.pixel) (hnot : s.around x y ≠ [])
    (hrest : ∀ q ∈ s.around x y, s.pixel d q.1 q.2 = clear.pixel) :
    (wholePixel s d x y).alpha = 129 ∨ (wholePixel s d x y).alpha = 127 := by
  obtain ⟨q, hq⟩ := List.exists_mem_of_ne_nil _ hnot
  have hin : clear.pixel ∈ (s.around x y).map fun q => s.pixel d q.1 q.2 :=
    List.mem_map.mpr ⟨q, hq, hrest q hq⟩
  rw [wholePixel, hself, noisePixel_covered true (by decide) (by decide) hbit hin (by decide)]
  exact recovered_grey _

/-- A white pixel among black ones is a blend, which the whole canvas moves. -/
theorem wholePixel_white (hbit : EdgeNoise.hash d.seed x y &&& 1 = 0)
    (hself : s.pixel d x y = white.pixel) (hnot : s.around x y ≠ [])
    (hrest : ∀ q ∈ s.around x y, s.pixel d q.1 q.2 = black.pixel) :
    wholePixel s d x y ≠ white.pixel := by
  have hmap : (s.around x y).map (fun q => s.pixel d q.1 q.2) ≠ [] :=
    fun hnil => hnot (List.map_eq_nil_iff.mp hnil)
  have hall : ∀ n ∈ (s.around x y).map (fun q => s.pixel d q.1 q.2),
      n ≠ white.pixel ∧ n.alpha = 255 := by
    intro n hn
    obtain ⟨q, hq, rfl⟩ := List.mem_map.mp hn
    rw [hrest q hq]
    decide
  rw [wholePixel, hself, noisePixel_blend hbit rfl hmap hall]
  exact recoloured_white _

/-- A grey pixel moves in a rectangle that holds a clear one next to it. -/
theorem regionPixel_grey (hbit : EdgeNoise.hash d.seed x y &&& 1 = 0)
    (hself : glPixel s d x y = grey.pixel) {q : ℤ × ℤ} (hq : q ∈ beside r x y)
    (hclear : glPixel s d q.1 q.2 = clear.pixel) :
    (regionPixel s d r x y).alpha = 129 ∨ (regionPixel s d r x y).alpha = 127 := by
  have hin : clear.pixel ∈ (beside r x y).map fun q => glPixel s d q.1 q.2 :=
    List.mem_map.mpr ⟨q, hq, hclear⟩
  rw [regionPixel, hself, noisePixel_covered false (by decide) (by decide) hbit hin (by decide)]
  exact recovered_grey _

theorem regionPixel_flat (hself : glPixel s d x y = grey.pixel)
    (hall : ∀ q ∈ beside r x y, glPixel s d q.1 q.2 = grey.pixel) :
    regionPixel s d r x y = grey.pixel := by
  rw [regionPixel, hself]
  refine noisePixel_flat _ _ fun n hn => ?_
  obtain ⟨q, hq, rfl⟩ := List.mem_map.mp hn
  exact hall q hq

/-- What is next to a dot is of the other ink. -/
theorem pixel_around_dot (hhalf : ReadsHalves half) (seed : UInt64) (held : ℤ → ℤ → Pixel)
    (ink rest : Ink) {q : ℤ × ℤ} (hq : q ∈ s.around x y) :
    s.pixel (painted s half seed (dot x y ink rest) held) q.1 q.2 = rest.pixel := by
  obtain ⟨hnext, hqon⟩ := List.mem_filter.mp hq
  have hother : ¬(q.1 = x ∧ q.2 = y) := by
    rintro ⟨hx, hy⟩
    rcases mem_nextTo.mp hnext with rfl | rfl | rfl | rfl <;> simp only at hx hy <;> omega
  rw [pixel_painted hhalf hqon, dot_other hother]

/-- So it is in a rectangle counted from below, where the array holds that ink outside. -/
theorem glPixel_beside_dot (hhalf : ReadsHalves half) (seed : UInt64) (ink rest : Ink)
    {q : ℤ × ℤ} (hq : q ∈ beside r x (s.height - 1 - y)) :
    glPixel s (painted s half seed (dot x y ink rest) fun _ _ => rest.pixel) q.1 q.2 =
      rest.pixel := by
  have hnext := (List.mem_filter.mp hq).1
  have hother : ¬(q.1 = x ∧ (s.height : ℤ) - 1 - q.2 = y) := by
    rintro ⟨hx, hy⟩
    rcases mem_nextTo.mp hnext with rfl | rfl | rfl | rfl <;> simp only at hx hy <;> omega
  rw [glPixel]
  split
  · rename_i hqon
    have hc := (onCanvas_iff s _ _).mp hqon
    have hflip : s.onCanvas q.1 (s.height - 1 - q.2) = true := by
      rw [onCanvas_iff]
      omega
    rw [pixel_painted hhalf hflip, dot_other hother]
  · rfl

end Moved

/-- Some content tells two views of a position apart. -/
def Apart (s : Surface) (half : List ℕ → Pixel) (x y : ℤ) (v w : View) : Prop :=
  ∃ d d' : Scene, d.Drawn s half ∧ d'.Drawn s half ∧ d.seed = d'.seed ∧ d.memory = d'.memory ∧
    v.pixel s d x y ≠ w.pixel s d' x y

section Told

variable {s : Surface} {half : List ℕ → Pixel} {r r' : Area} {x y : ℤ} {v w : View}

theorem Apart.symm (h : Apart s half x y v w) : Apart s half x y w v := by
  obtain ⟨d, d', hd, hd', hseed, hmemory, hne⟩ := h
  exact ⟨d', d, hd', hd, hseed.symm, hmemory.symm, fun heq => hne heq.symm⟩

/-- A dot, with its surroundings continued outside the canvas. -/
def dotted (s : Surface) (half : List ℕ → Pixel) (seed : UInt64) (x y : ℤ) (ink rest : Ink) :
    Scene :=
  painted s half seed (dot x y ink rest) fun _ _ => rest.pixel

/-- A dot that two views make something else of tells them apart. -/
theorem apart_of_dot (hhalf : ReadsHalves half) (seed : UInt64) (ink rest : Ink)
    (hink : ink.Premultiplied) (hrest : rest.Premultiplied)
    (h : v.pixel s (dotted s half seed x y ink rest) x y ≠
      w.pixel s (dotted s half seed x y ink rest) x y) : Apart s half x y v w := by
  have hdrawn : (dotted s half seed x y ink rest).Drawn s half :=
    painted_drawn hhalf (dot_premultiplied hink hrest)
  exact ⟨_, _, hdrawn, hdrawn, rfl, rfl, h⟩

theorem pixel_dotted (hhalf : ReadsHalves half) (hon : s.onCanvas x y = true) (seed : UInt64)
    (ink rest : Ink) : s.pixel (dotted s half seed x y ink rest) x y = ink.pixel := by
  rw [dotted, pixel_painted hhalf hon, dot_self]

/-- What the whole canvas and a rectangle make of a grey dot. -/
theorem whole_dotted (hhalf : ReadsHalves half) (hon : s.onCanvas x y = true)
    (hnot : s.around x y ≠ []) :
    (wholePixel s (dotted s half (seedAt x y) x y grey clear) x y).alpha = 129 ∨
      (wholePixel s (dotted s half (seedAt x y) x y grey clear) x y).alpha = 127 :=
  wholePixel_grey (hash_seedAt x y) (pixel_dotted hhalf hon _ _ _) hnot
    fun _ hq => pixel_around_dot hhalf _ _ _ _ hq

theorem region_dotted (hhalf : ReadsHalves half) (hon : s.onCanvas x y = true)
    (hnot : beside r x (s.height - 1 - y) ≠ []) :
    (regionPixel s (dotted s half (seedAt x (s.height - 1 - y)) x y grey clear) r x
        (s.height - 1 - y)).alpha = 129 ∨
      (regionPixel s (dotted s half (seedAt x (s.height - 1 - y)) x y grey clear) r x
        (s.height - 1 - y)).alpha = 127 := by
  obtain ⟨q, hq⟩ := List.exists_mem_of_ne_nil _ hnot
  have hself : glPixel s (dotted s half (seedAt x (s.height - 1 - y)) x y grey clear) x
      (s.height - 1 - y) = grey.pixel := by
    rw [glPixel_onCanvas hon, pixel_dotted hhalf hon]
  exact regionPixel_grey (hash_seedAt x _) hself hq (glPixel_beside_dot hhalf _ _ _ hq)

/-- A view that moves the position is told from one that leaves it alone. -/
theorem apart_untouched (hhalf : ReadsHalves half) (htype : v = .halves → s.colorType = .rgbaF16)
    (hon : s.onCanvas x y = true) (hidle : ¬v.Idle s x y) : Apart s half x y v .untouched := by
  have hgrey (seed : UInt64) :
      ((View.untouched).pixel s (dotted s half seed x y grey clear) x y).alpha = 128 := by
    change (s.pixel _ x y).alpha = 128
    rw [pixel_dotted hhalf hon]
    rfl
  cases v with
  | untouched => exact absurd trivial hidle
  | whole =>
    refine apart_of_dot hhalf (seedAt x y) grey clear (by decide) (by decide) fun heq => ?_
    have halpha := congrArg Pixel.alpha heq
    rw [hgrey] at halpha
    have hmoved := whole_dotted hhalf hon hidle
    change (wholePixel _ _ _ _).alpha = 128 at halpha
    omega
  | region r =>
    refine apart_of_dot hhalf (seedAt x (s.height - 1 - y)) grey clear (by decide) (by decide)
      fun heq => ?_
    have halpha := congrArg Pixel.alpha heq
    rw [hgrey] at halpha
    have hmoved := region_dotted hhalf hon hidle
    change (regionPixel _ _ _ _ _).alpha = 128 at halpha
    omega
  | halves =>
    obtain ⟨hnot, hreach⟩ := not_or.mp hidle
    refine apart_of_dot hhalf (seedAt (2 * x) y) green clear (by decide) (by decide) fun heq => ?_
    refine halvesPixel_green hhalf (htype rfl) hon hnot (by omega) (heq.trans ?_)
    exact pixel_dotted hhalf hon _ _ _

/-- The whole canvas moves blends, and a rectangle of WebGL does not. -/
theorem apart_whole_region (hhalf : ReadsHalves half) (hon : s.onCanvas x y = true)
    (hidle : ¬(s.around x y = [] ∧ beside r x (s.height - 1 - y) = [])) :
    Apart s half x y .whole (.region r) := by
  by_cases hnot : s.around x y = []
  · -- The canvas is one pixel, and only the rectangle looks at others.
    refine apart_of_dot hhalf (seedAt x (s.height - 1 - y)) grey clear (by decide) (by decide)
      fun heq => ?_
    have hbeside : beside r x (s.height - 1 - y) ≠ [] := fun hnil => hidle ⟨hnot, hnil⟩
    have halone : (View.whole).Idle s x y := hnot
    have hno : View.whole = .halves → s.colorType = .rgbaF16 := (nomatch ·)
    have hkept : (View.whole).pixel s
        (dotted s half (seedAt x (s.height - 1 - y)) x y grey clear) x y = grey.pixel :=
      (View.pixel_idle hno hon halone).trans (pixel_dotted hhalf hon _ _ _)
    have halpha := congrArg Pixel.alpha heq
    rw [hkept] at halpha
    change 128 = (regionPixel _ _ _ _ _).alpha at halpha
    have hmoved := region_dotted hhalf hon hbeside
    omega
  · refine apart_of_dot hhalf (seedAt x y) white black (by decide) (by decide) fun heq => ?_
    have hself : s.pixel (dotted s half (seedAt x y) x y white black) x y = white.pixel :=
      pixel_dotted hhalf hon _ _ _
    have hkept : (View.region r).pixel s (dotted s half (seedAt x y) x y white black) x y =
        white.pixel := by
      have hsolid : white.pixel.alpha = 255 := rfl
      change regionPixel s (dotted s half (seedAt x y) x y white black) r x (s.height - 1 - y) = _
      rw [regionPixel, glPixel_onCanvas hon, hself, noisePixel_solid _ hsolid]
    have hbit : EdgeNoise.hash (dotted s half (seedAt x y) x y white black).seed x y &&& 1 = 0 :=
      hash_seedAt x y
    rw [hkept] at heq
    exact wholePixel_white hbit hself hnot (fun _ hq => pixel_around_dot hhalf _ _ _ _ hq) heq

/-- Half floats move by far more than a step. -/
theorem halves_dotted (hhalf : ReadsHalves half) (htype : s.colorType = .rgbaF16)
    (hon : s.onCanvas x y = true) (seed : UInt64) :
    (halvesPixel s (dotted s half seed x y grey clear) x y).alpha = 128 ∨
      (halvesPixel s (dotted s half seed x y grey clear) x y).alpha = 112 ∨
      (halvesPixel s (dotted s half seed x y grey clear) x y).alpha = 159 :=
  halvesPixel_grey hhalf htype hon dot_self

theorem apart_whole_halves (hhalf : ReadsHalves half) (htype : s.colorType = .rgbaF16)
    (hon : s.onCanvas x y = true) (hnot : s.around x y ≠ []) :
    Apart s half x y .whole .halves := by
  refine apart_of_dot hhalf (seedAt x y) grey clear (by decide) (by decide) fun heq => ?_
  have halpha : (wholePixel _ _ _ _).alpha = (halvesPixel _ _ _ _).alpha :=
    congrArg Pixel.alpha heq
  have hmoved := whole_dotted hhalf hon hnot
  have hhalves := halves_dotted hhalf htype hon (seedAt x y)
  omega

theorem apart_region_halves (hhalf : ReadsHalves half) (htype : s.colorType = .rgbaF16)
    (hon : s.onCanvas x y = true)
    (hidle : ¬(beside r x (s.height - 1 - y) = [] ∧ View.halves.Idle s x y)) :
    Apart s half x y (.region r) .halves := by
  by_cases hnot : beside r x (s.height - 1 - y) = []
  · obtain ⟨haround, hreach⟩ := not_or.mp fun h => hidle ⟨hnot, h⟩
    refine apart_of_dot hhalf (seedAt (2 * x) y) green clear (by decide) (by decide) fun heq => ?_
    have halone : (View.region r).Idle s x y := hnot
    have hno : View.region r = .halves → s.colorType = .rgbaF16 := (nomatch ·)
    have hkept : (View.region r).pixel s (dotted s half (seedAt (2 * x) y) x y green clear) x y =
        green.pixel :=
      (View.pixel_idle hno hon halone).trans (pixel_dotted hhalf hon _ _ _)
    rw [hkept] at heq
    exact halvesPixel_green hhalf htype hon haround (by omega) heq.symm
  · refine apart_of_dot hhalf (seedAt x (s.height - 1 - y)) grey clear (by decide) (by decide)
      fun heq => ?_
    have halpha : (regionPixel _ _ _ _ _).alpha = (halvesPixel _ _ _ _).alpha :=
      congrArg Pixel.alpha heq
    have hmoved := region_dotted hhalf hon hnot
    have hhalves := halves_dotted hhalf htype hon (seedAt x (s.height - 1 - y))
    omega

/-- A neighbour that only one of two rectangles holds tells them apart, and so does one outside the
canvas, where each read keeps what its own array held. -/
theorem apart_of_neighbour (hhalf : ReadsHalves half) (hon : s.onCanvas x y = true) {q : ℤ × ℤ}
    (hq : q ∈ beside r x (s.height - 1 - y))
    (hother : q ∉ beside r' x (s.height - 1 - y) ∨ ¬s.onCanvas q.1 q.2 = true) :
    Apart s half x y (.region r) (.region r') := by
  have hnext := (List.mem_filter.mp hq).1
  have hgrey (d : Scene) (hself : s.pixel d x y = grey.pixel) :
      glPixel s d x (s.height - 1 - y) = grey.pixel := (glPixel_onCanvas hon).trans hself
  -- One rectangle sees a clear neighbour of a grey pixel, and the other sees nothing but grey.
  have htold (d d' : Scene) (hself : s.pixel d x y = grey.pixel)
      (hself' : s.pixel d' x y = grey.pixel)
      (hbit : EdgeNoise.hash d.seed x (s.height - 1 - y) &&& 1 = 0)
      (hclear : glPixel s d q.1 q.2 = clear.pixel)
      (hflat : ∀ q' ∈ beside r' x (s.height - 1 - y), glPixel s d' q'.1 q'.2 = grey.pixel) :
      (View.region r).pixel s d x y ≠ (View.region r').pixel s d' x y := by
    intro heq
    have halpha : (regionPixel s d r x (s.height - 1 - y)).alpha =
        (regionPixel s d' r' x (s.height - 1 - y)).alpha := congrArg Pixel.alpha heq
    have hmoved := regionPixel_grey hbit (hgrey d hself) hq hclear
    rw [regionPixel_flat (hgrey d' hself') hflat] at halpha
    change _ = 128 at halpha
    omega
  by_cases hqon : s.onCanvas q.1 q.2 = true
  · have hc := (onCanvas_iff s _ _).mp hqon
    have hflip : s.onCanvas q.1 (s.height - 1 - q.2) = true := by
      rw [onCanvas_iff]
      omega
    have hdot (u v : ℤ) (hne : ¬(u = q.1 ∧ v = q.2)) : glPixel s (painted s half
        (seedAt x (s.height - 1 - y)) (dot q.1 (s.height - 1 - q.2) clear grey)
          fun _ _ => grey.pixel) u v = grey.pixel := by
      rw [glPixel]
      split
      · rename_i huv
        have hc' := (onCanvas_iff s _ _).mp huv
        have hflip' : s.onCanvas u (s.height - 1 - v) = true := by
          rw [onCanvas_iff]
          omega
        rw [pixel_painted hhalf hflip', dot_other fun h => hne (by omega)]
      · rfl
    have hself : s.pixel (painted s half (seedAt x (s.height - 1 - y))
        (dot q.1 (s.height - 1 - q.2) clear grey) fun _ _ => grey.pixel) x y = grey.pixel := by
      rw [← glPixel_onCanvas hon]
      refine hdot _ _ ?_
      rintro ⟨hx, hy⟩
      rcases mem_nextTo.mp hnext with rfl | rfl | rfl | rfl <;> simp only at hx hy <;> omega
    have hdrawn : (painted s half (seedAt x (s.height - 1 - y))
        (dot q.1 (s.height - 1 - q.2) clear grey) fun _ _ => grey.pixel).Drawn s half :=
      painted_drawn hhalf (dot_premultiplied (by decide) (by decide))
    refine ⟨_, _, hdrawn, hdrawn, rfl, rfl, htold _ _ hself hself (hash_seedAt _ _) ?_ ?_⟩
    · rw [glPixel, if_pos hqon, pixel_painted hhalf hflip, dot_self]
    · intro q' hq'
      refine hdot _ _ ?_
      rintro ⟨hx, hy⟩
      have hsame : q' = q := Prod.ext hx hy
      exact hother.elim (fun hnot => hnot (hsame ▸ hq')) fun hoff => hoff hqon
  · -- The canvas is grey all over, and only the first array held something clear.
    let array (u v : ℤ) : Pixel := if u = q.1 ∧ v = q.2 then clear.pixel else grey.pixel
    have hdrawn (held : ℤ → ℤ → Pixel) :
        (painted s half (seedAt x (s.height - 1 - y)) (fun _ _ => grey) held).Drawn s half :=
      painted_drawn hhalf fun _ _ => by decide
    have hpixel (held : ℤ → ℤ → Pixel) (u v : ℤ) (huv : s.onCanvas u v = true) :
        s.pixel (painted s half (seedAt x (s.height - 1 - y)) (fun _ _ => grey) held) u v =
          grey.pixel := pixel_painted hhalf huv
    refine ⟨_, _, hdrawn array, hdrawn fun _ _ => grey.pixel, rfl, rfl,
      htold _ _ (hpixel _ x y hon) (hpixel _ x y hon) (hash_seedAt _ _) ?_ ?_⟩
    · rw [glPixel, if_neg hqon]
      exact if_pos ⟨rfl, rfl⟩
    · intro q' _
      rw [glPixel]
      split
      · rename_i hq'
        have hc := (onCanvas_iff s _ _).mp hq'
        exact hpixel _ _ _ ((onCanvas_iff s _ _).mpr (by omega))
      · rfl

/-- Rectangles that are not the same to a position are told apart. -/
theorem apart_regions (hhalf : ReadsHalves half) (hon : s.onCanvas x y = true)
    (hsame : ¬View.Same s x y (.region r) (.region r')) :
    Apart s half x y (.region r) (.region r') := by
  by_cases hall : ∀ q ∈ nextTo x (s.height - 1 - y),
      (q ∈ beside r x (s.height - 1 - y) ↔ q ∈ beside r' x (s.height - 1 - y))
  · have heq : beside r x (s.height - 1 - y) = beside r' x (s.height - 1 - y) := by
      refine List.filter_congr fun q hq => ?_
      have hiff := hall q hq
      rw [beside, beside, List.mem_filter, List.mem_filter, and_iff_right hq, and_iff_right hq]
        at hiff
      exact Bool.eq_iff_iff.mpr hiff
    obtain ⟨q, hq, hoff⟩ : ∃ q ∈ beside r x (s.height - 1 - y), ¬s.onCanvas q.1 q.2 = true := by
      by_contra hnone
      refine hsame ⟨heq, fun q hq => ?_⟩
      by_contra hoff
      exact hnone ⟨q, hq, hoff⟩
    exact apart_of_neighbour hhalf hon hq (.inr hoff)
  · obtain ⟨q, hq⟩ := not_forall.mp hall
    obtain ⟨-, hiff⟩ := Classical.not_imp.mp hq
    by_cases hin : q ∈ beside r x (s.height - 1 - y)
    · have hout : q ∉ beside r' x (s.height - 1 - y) := fun hin' => hiff (iff_of_true hin hin')
      exact apart_of_neighbour hhalf hon hin (.inl hout)
    · have hin' : q ∈ beside r' x (s.height - 1 - y) := by
        by_contra hout
        exact hiff (iff_of_false hin hout)
      exact (apart_of_neighbour hhalf hon hin' (.inl hin)).symm

/-- Views that do not treat a position alike are told apart on it. -/
theorem apart_of_not_alike (hhalf : ReadsHalves half) (hon : s.onCanvas x y = true)
    (hv : v = .halves → s.colorType = .rgbaF16) (hw : w = .halves → s.colorType = .rgbaF16)
    (h : ¬(View.Same s x y v w ∨ v.Idle s x y ∧ w.Idle s x y)) : Apart s half x y v w := by
  obtain ⟨hsame, hidle⟩ := not_or.mp h
  cases v with
  | whole =>
    cases w with
    | whole => exact absurd trivial hsame
    | untouched => exact apart_untouched hhalf hv hon fun hv => hidle ⟨hv, trivial⟩
    | halves => exact apart_whole_halves hhalf (hw rfl) hon fun hnil => hidle ⟨hnil, .inl hnil⟩
    | region r => exact apart_whole_region hhalf hon hidle
  | untouched => exact (apart_untouched hhalf hw hon fun hw => hidle ⟨trivial, hw⟩).symm
  | halves =>
    cases w with
    | whole =>
      exact (apart_whole_halves hhalf (hv rfl) hon fun hnil => hidle ⟨.inl hnil, hnil⟩).symm
    | untouched => exact apart_untouched hhalf hv hon fun hv => hidle ⟨hv, trivial⟩
    | halves => exact absurd trivial hsame
    | region r => exact (apart_region_halves hhalf (hv rfl) hon fun h => hidle h.symm).symm
  | region r =>
    cases w with
    | whole => exact (apart_whole_region hhalf hon fun h => hidle h.symm).symm
    | untouched => exact apart_untouched hhalf hv hon fun hv => hidle ⟨hv, trivial⟩
    | halves => exact apart_region_halves hhalf (hw rfl) hon hidle
    | region r' => exact apart_regions hhalf hon hsame

end Told

section Reads

variable {k : ContextKind}

/-- Two reads agree on every content exactly when they treat every position alike that both
contain. -/
theorem agree_iff_alike (s : Surface) (half : List ℕ → Pixel) (hhalf : ReadsHalves half)
    (a b : Readback k) : Agree s half a b ↔ ∀ x y, s.onCanvas x y = true →
      a.contains s x y = true → b.contains s x y = true → Alike s a b x y := by
  constructor
  · intro h x y hon ha hb
    by_contra hnot
    obtain ⟨d, d', hd, hd', hseed, hmemory, hne⟩ :=
      apart_of_not_alike hhalf hon view_halves view_halves hnot
    have hshown := h d d' hd hd' hseed hmemory x y hon ha hb
    rw [shown_eq ha hon, shown_eq hb hon] at hshown
    exact hne hshown
  · intro h d d' hd hd' hseed hmemory x y hon ha hb
    have hhalves : d.half = d'.half := hd.reads.trans hd'.reads.symm
    rw [shown_eq ha hon, shown_eq hb hon]
    rcases h x y hon ha hb with hsame | ⟨hidle, hidle'⟩
    · exact View.pixel_same hseed hmemory hhalves hon hsame
    · rw [View.pixel_idle view_halves hon hidle, View.pixel_idle view_halves hon hidle',
        Surface.pixel, Surface.pixel, hmemory, hhalves]

/-- Skia's reading of half floats. -/
def skiaHalf : List ℕ → Pixel
  | [r, r', g, g', b, b', a, a'] => ⟨level r r', level g g', level b b', level a a'⟩
  | _ => ⟨0, 0, 0, 0⟩

/-- A canvas of two pixels. -/
def pair : Surface := ⟨.rgba8888, 2, 1, 8, by decide⟩

/-- What is encoded of a store of bytes is the same, however it is encoded. -/
theorem agree_iff_alike_pair : Agree pair skiaHalf (.toDataURL .webGL) (.toBlob .webGL) :=
  (agree_iff_alike pair skiaHalf (fun _ _ _ _ _ _ _ _ => rfl) _ _).mpr
    fun _ _ _ _ _ => .inl trivial

/-- A pixel that is read alone is not what it is in a read of the whole canvas. -/
theorem partial_read_differs : ¬∀ (s : Surface) (half : List ℕ → Pixel), ReadsHalves half →
    ∀ (k : ContextKind) (a b : Readback k), Agree s half a b := by
  intro h
  have hagree := h pair skiaHalf (fun _ _ _ _ _ _ _ _ => rfl) .webGL
    (.readPixels ⟨0, 0, 2, 1⟩ true) (.readPixels ⟨0, 0, 1, 1⟩ true)
  have hdrawn : (dotted pair skiaHalf (seedAt 0 0) 0 0 grey clear).Drawn pair skiaHalf :=
    painted_drawn (fun _ _ _ _ _ _ _ _ => rfl) (dot_premultiplied (by decide) (by decide))
  have hshown := hagree _ _ hdrawn hdrawn rfl rfl 0 0 rfl rfl rfl
  revert hshown
  decide

end Reads

end FuryBrowser.CanvasReads
