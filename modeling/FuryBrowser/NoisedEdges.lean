import FuryBrowser.EdgeNoise

/-!
# The noise is what another rasteriser would draw

A noised rectangle differs from the untouched one as two rasterisers differ: in the coverage of
its edges by one step, with the colour kept, and in one channel of a blend by one step. What is
transparent or flat stays, and no byte outside the buffers is read or written.
-/

namespace FuryBrowser.EdgeNoise

open CanvasDraws (Pixel)
open CellFolds

section Pixels

/-- No channel of a premultiplied pixel is above its coverage, which is a byte. -/
structure Premultiplied (p : Pixel) : Prop where
  red : p.red ≤ p.alpha
  green : p.green ≤ p.alpha
  blue : p.blue ≤ p.alpha
  alpha : p.alpha ≤ 255

/-- The number is a nearest one to the quotient. -/
def Nearest (n a b : ℕ) : Prop := 2 * a ≤ 2 * (n * b) + b ∧ 2 * (n * b) ≤ 2 * a + b

/-- One number is a step away from the other. -/
def ByOne (v v' : ℕ) : Prop := v' = v + 1 ∨ v = v' + 1

/-- Just one colour of a pixel is another, by one step. -/
def OneColour (p p' : Pixel) : Prop :=
  p'.alpha = p.alpha ∧
    (ByOne p.red p'.red ∧ p'.green = p.green ∧ p'.blue = p.blue ∨
      ByOne p.green p'.green ∧ p'.red = p.red ∧ p'.blue = p.blue ∨
      ByOne p.blue p'.blue ∧ p'.red = p.red ∧ p'.green = p.green)

/-- What another rasteriser may draw for a pixel among these neighbours. -/
structure Rasterised (p : Pixel) (neighbours : List Pixel) (p' : Pixel) : Prop where
  premultiplied : Premultiplied p'
  /-- Nothing is drawn where nothing was. -/
  transparent : p.alpha = 0 → p' = p
  flat : (∀ q ∈ neighbours, q = p) → p' = p
  /-- Coverage moves by a step, and the colour stays. -/
  coverage : 0 < p.alpha → p.alpha < 255 →
    (p'.alpha = p.alpha ∨ ByOne p.alpha p'.alpha) ∧ (1 ≤ p'.alpha ∧ p'.alpha ≤ 254) ∧
      Nearest p'.red (p.red * p'.alpha) p.alpha ∧ Nearest p'.green (p.green * p'.alpha) p.alpha ∧
      Nearest p'.blue (p.blue * p'.alpha) p.alpha
  /-- A blend moves in one colour, where it is a transition inside opaque content. -/
  blend : p.alpha = 255 →
    p' = p ∨ OneColour p p' ∧ ∀ q ∈ neighbours, q ≠ p ∧ q.alpha = 255

variable {h : UInt64} {p : Pixel} {v a b : ℕ}

theorem moved_spec (hpos : 0 < a) (hlt : a < 255) :
    (moved h a = a ∨ ByOne a (moved h a)) ∧ 1 ≤ moved h a ∧ moved h a ≤ 254 := by
  have hstep : ∀ next : ℤ, next = a + 1 ∨ next = a - 1 →
      ((if next < 1 then 1 else if next > 254 then 254 else next).toNat = a ∨
        ByOne a (if next < 1 then 1 else if next > 254 then 254 else next).toNat) ∧
      1 ≤ (if next < 1 then 1 else if next > 254 then 254 else next).toNat ∧
      (if next < 1 then 1 else if next > 254 then 254 else next).toNat ≤ 254 := by
    intro next hnext
    unfold ByOne
    split
    · omega
    · split <;> omega
  unfold moved
  apply hstep
  split
  · exact .inl rfl
  · exact .inr rfl

/-- A channel that is scaled with the coverage is rounded to the nearest number, and never has to
be held below the coverage. -/
theorem rescaled_spec (hv : v ≤ a) (ha : 0 < a) :
    rescaled v a b ≤ b ∧ Nearest (rescaled v a b) (v * b) a := by
  have hvb : v * b ≤ b * a := by
    rw [Nat.mul_comm b a]
    exact Nat.mul_le_mul_right b hv
  have hle : (v * b + a / 2) / a ≤ b := by
    apply Nat.le_of_lt_succ
    rw [Nat.div_lt_iff_lt_mul ha, Nat.succ_mul]
    omega
  have hdown := Nat.div_mul_le_self (v * b + a / 2) a
  have hup := Nat.lt_div_mul_add ha (a := v * b + a / 2)
  rw [rescaled, if_neg (Nat.not_lt.mpr hle), Nearest]
  refine ⟨hle, ?_, ?_⟩ <;> omega

theorem nudge_spec (hv : v ≤ 255) : ByOne v (nudge h v) ∧ nudge h v ≤ 255 := by
  unfold nudge ByOne
  split <;> split <;> omega

theorem Rasterised.refl {neighbours : List Pixel} (hp : Premultiplied p) :
    Rasterised p neighbours p := by
  refine ⟨hp, fun _ => rfl, fun _ => rfl, fun hpos hlt => ?_, fun _ => .inl rfl⟩
  have hsame : ∀ v, Nearest v (v * p.alpha) p.alpha := fun v => by
    unfold Nearest
    omega
  exact ⟨.inl rfl, ⟨hpos, Nat.le_of_lt_succ hlt⟩, hsame _, hsame _, hsame _⟩

/-- The coverage moves as a rasteriser's does. -/
theorem rasterised_recovered {neighbours : List Pixel} (hp : Premultiplied p) (hpos : 0 < p.alpha)
    (hlt : p.alpha < 255) (hedge : ¬ ∀ q ∈ neighbours, q = p) :
    Rasterised p neighbours (recovered h p) := by
  obtain ⟨hmoved, hlow, hhigh⟩ := moved_spec (h := h) hpos hlt
  have hred := rescaled_spec (b := moved h p.alpha) hp.red hpos
  have hgreen := rescaled_spec (b := moved h p.alpha) hp.green hpos
  have hblue := rescaled_spec (b := moved h p.alpha) hp.blue hpos
  refine ⟨⟨hred.1, hgreen.1, hblue.1, Nat.le_trans hhigh (by decide)⟩, ?_,
    fun hflat => absurd hflat hedge, ?_, ?_⟩
  · omega
  · exact fun _ _ => ⟨hmoved, ⟨hlow, hhigh⟩, hred.2, hgreen.2, hblue.2⟩
  · omega

/-- A blend moves as a rasteriser's does. -/
theorem rasterised_recoloured {neighbours : List Pixel} (hp : Premultiplied p)
    (hsolid : p.alpha = 255) (hedge : ¬ ∀ q ∈ neighbours, q = p)
    (hblend : ∀ q ∈ neighbours, q ≠ p ∧ q.alpha = 255) :
    Rasterised p neighbours (recoloured h p) := by
  have hred := nudge_spec (h := h) (hsolid ▸ hp.red)
  have hgreen := nudge_spec (h := h) (hsolid ▸ hp.green)
  have hblue := nudge_spec (h := h) (hsolid ▸ hp.blue)
  have hone : OneColour p (recoloured h p) ∧ Premultiplied (recoloured h p) := by
    unfold recoloured
    split
    · exact ⟨⟨rfl, .inl ⟨hred.1, rfl, rfl⟩⟩, hsolid ▸ hred.2, hp.green, hp.blue, hp.alpha⟩
    · exact ⟨⟨rfl, .inr (.inl ⟨hgreen.1, rfl, rfl⟩)⟩, hp.red, hsolid ▸ hgreen.2, hp.blue, hp.alpha⟩
    · exact ⟨⟨rfl, .inr (.inr ⟨hblue.1, rfl, rfl⟩)⟩, hp.red, hp.green, hsolid ▸ hblue.2, hp.alpha⟩
  refine ⟨hone.2, ?_, fun hflat => absurd hflat hedge, ?_, fun _ => .inr ⟨hone.1, hblend⟩⟩
  · omega
  · omega

/-- Whatever the bits, a pixel is noised as a rasteriser might have drawn it. -/
theorem noisePixel_rasterised (opaqueBlends : Bool) (neighbours : List Pixel)
    (hp : Premultiplied p) :
    Rasterised p neighbours (noisePixel h opaqueBlends p neighbours) := by
  unfold noisePixel
  split
  · exact .refl hp
  rename_i hpos
  split
  · exact .refl hp
  rename_i hflat
  have hedge : ¬ ∀ q ∈ neighbours, q = p := by simpa using hflat
  split
  · exact .refl hp
  split
  · rename_i hlt
    exact rasterised_recovered hp (Nat.pos_of_ne_zero hpos) hlt hedge
  · rename_i hlt
    split
    · rename_i hblend
      have hsolid : p.alpha = 255 := Nat.le_antisymm hp.alpha (Nat.not_lt.mp hlt)
      refine rasterised_recoloured hp hsolid hedge fun q hq => ?_
      exact ⟨by simpa using List.all_eq_true.mp hblend.2.1 q hq,
        by simpa using List.all_eq_true.mp hblend.2.2 q hq⟩
    · exact .refl hp

end Pixels

section Buffers

variable {c : Call} {s : Span} {x y : ℤ} {i : ℕ}

/-- A position whose bytes are not in the buffers is passed over. -/
theorem step_not_held (hs : s.size = c.original.size) (h : c.held x y = false) :
    c.step s (x, y) = s := by
  rw [Call.held, Bool.and_eq_false_iff] at h
  rw [Call.step]
  rcases h with hu | hsize
  · rw [hu]
    rfl
  · rw [decide_eq_false_iff_not, Nat.not_lt] at hsize
    split
    · rfl
    · exact if_pos (.inl hsize)

/-- Only bytes of noised positions in the buffers are written. -/
theorem noised_byte_other {positions : List (ℤ × ℤ)} (hs : s.size = c.original.size)
    (h : ∀ x y, (x, y) ∈ positions → c.held x y = true →
      i < c.offset x y ∨ c.offset x y + 4 ≤ i) :
    (positions.foldl c.step s).byte i = s.byte i := by
  induction positions generalizing s with
  | nil => rfl
  | cons xy rest ih =>
    obtain ⟨x, y⟩ := xy
    rw [List.foldl_cons, ih ((step_size _).trans hs) fun x y hxy => h x y (List.mem_cons_of_mem _ hxy)]
    cases hheld : c.held x y with
    | false => rw [step_not_held hs hheld]
    | true => exact step_byte_other fun _ => h x y List.mem_cons_self hheld

theorem noised_size (positions : List (ℤ × ℤ)) : (positions.foldl c.step s).size = s.size := by
  induction positions generalizing s with
  | nil => rfl
  | cons xy rest ih => rw [List.foldl_cons, ih, step_size]

/-- A pixel's bytes are decided by it. -/
theorem byte_of_pixelAt {t : Span} {bgra : Bool} {p : ℕ} (h : pixelAt bgra s p = pixelAt bgra t p)
    (hlo : p ≤ i) (hhi : i < p + 4) : s.byte i = t.byte i := by
  have hred := congrArg Pixel.red h
  have hgreen := congrArg Pixel.green h
  have hblue := congrArg Pixel.blue h
  have halpha := congrArg Pixel.alpha h
  have hi : i = p ∨ i = p + 1 ∨ i = p + 2 ∨ i = p + 3 := by omega
  cases bgra <;> rcases hi with rfl | rfl | rfl | rfl <;> assumption

/-- The call with another untouched copy. -/
def Call.withOriginal (c : Call) (original : Span) : Call := { c with original := original }

/-- The bytes beyond the copy play no part. -/
theorem noised_congr (hrow : 4 * c.covered.width ≤ c.rowBytes) {o : Span}
    (hsize : o.size = c.original.size)
    (hsame : ∀ i < c.original.size, o.byte i = c.original.byte i) (hi : i < c.original.size) :
    ((c.withOriginal o).applyEdgeNoise o).byte i = (c.applyEdgeNoise c.original).byte i := by
  have hheld : ∀ x y, (c.withOriginal o).held x y = c.held x y := by
    intro x y
    change (c.usable x y && decide (c.offset x y + 3 < o.size)) = c.held x y
    rw [hsize, Call.held]
  have hpixel : ∀ q : ℤ × ℤ, c.held q.1 q.2 = true → (c.withOriginal o).pixel q = c.pixel q := by
    intro q hq
    have hin := (held_iff.mp hq).2
    exact pixelAt_congr c.bgra fun j _ hj => hsame j (by change j < c.offset q.1 q.2 + 4 at hj; omega)
  by_cases hown : ∃ x y, c.noisedArea.has x y = true ∧ c.held x y = true ∧ c.offset x y ≤ i ∧
      i < c.offset x y + 4
  · obtain ⟨x, y, hin, hxy, hlo, hhi⟩ := hown
    have hbeside : (c.withOriginal o).heldBeside x y = c.heldBeside x y :=
      List.filter_congr fun q _ => hheld q.1 q.2
    have hnoised : pixelAt c.bgra ((c.withOriginal o).applyEdgeNoise o) (c.offset x y) = _ :=
      pixelAt_noised (c := c.withOriginal o) hrow ((hheld x y).trans hxy) hin
    have hmap : ((c.heldBeside x y).map (c.withOriginal o).pixel) =
        (c.heldBeside x y).map c.pixel :=
      List.map_congr_left fun q hq => hpixel q (List.mem_filter.mp hq).2
    rw [hbeside, hpixel (x, y) hxy, hmap] at hnoised
    exact byte_of_pixelAt (hnoised.trans (pixelAt_noised hrow hxy hin).symm) hlo hhi
  · have hother : ∀ x y, (x, y) ∈ c.noisedArea.positions → c.held x y = true →
        i < c.offset x y ∨ c.offset x y + 4 ≤ i := by
      intro x y hin hxy
      by_contra hnot
      exact hown ⟨x, y, (mem_positions _ _ _).mp hin, hxy, by omega, by omega⟩
    have hleft : ((c.withOriginal o).applyEdgeNoise o).byte i = o.byte i :=
      noised_byte_other rfl fun x y hin hxy => hother x y hin ((hheld x y).symm.trans hxy)
    have hright : (c.applyEdgeNoise c.original).byte i = c.original.byte i :=
      noised_byte_other rfl hother
    rw [hleft, hright, hsame i hi]

/-- What is noised is what another rasteriser might have drawn, and the rest is as it was. -/
structure AsRasterised (c : Call) (noised : Span) : Prop where
  /-- It is as long as it was. -/
  size : noised.size = c.original.size
  /-- Nothing is written behind the buffers. -/
  writes : ∀ i, c.original.size ≤ i → noised.byte i = c.original.byte i
  reads : ∀ o : Span, o.size = c.original.size →
    (∀ i < c.original.size, o.byte i = c.original.byte i) →
    ∀ i < c.original.size, ((c.withOriginal o).applyEdgeNoise o).byte i = noised.byte i
  /-- Outside the noised rectangle all is as it was. -/
  outside : ∀ i, (∀ x y, c.noisedArea.has x y = true → c.held x y = true →
    i < c.offset x y ∨ c.offset x y + 4 ≤ i) → noised.byte i = c.original.byte i
  /-- So is every pixel there. -/
  margin : ∀ x y, c.held x y = true → c.noisedArea.has x y = false →
    pixelAt c.bgra noised (c.offset x y) = c.pixel (x, y)
  /-- Within it each pixel is what a rasteriser might draw. -/
  pixels : ∀ x y, c.held x y = true → c.noisedArea.has x y = true →
    Rasterised (c.pixel (x, y)) ((c.heldBeside x y).map c.pixel)
      (pixelAt c.bgra noised (c.offset x y))

/-- Of premultiplied pixels in rows that do not overlap, the noise makes what another rasteriser
might have drawn. -/
theorem applyEdgeNoise_asRasterised (c : Call) (hrow : 4 * c.covered.width ≤ c.rowBytes)
    (hpixels : ∀ x y, c.held x y = true → Premultiplied (c.pixel (x, y))) :
    AsRasterised c (c.applyEdgeNoise c.original) where
  size := noised_size _
  writes i hi := noised_byte_other rfl fun x y _ hheld => by
    have hin := (held_iff.mp hheld).2
    omega
  reads _ hsize hsame _ hi := noised_congr hrow hsize hsame hi
  outside i hi := noised_byte_other rfl fun x y hin => hi x y ((mem_positions _ _ _).mp hin)
  margin x y hheld hout := by
    have hlocal := step_local hrow (x, y) (usable_iff.mp (held_iff.mp hheld).1).2.2.2.2
    refine foldl_not_mem hlocal rfl fun hin => ?_
    rw [mem_positions, hout] at hin
    cases hin
  pixels x y hheld hin := by
    rw [pixelAt_noised hrow hheld hin]
    exact noisePixel_rasterised _ _ (hpixels x y hheld)

/-- Two pixels in a row, the first of them partly covered. -/
def pair : Call :=
  { seed := 7, original := ⟨8, fun i => if i < 4 then 64 else 255⟩, rowBytes := 8,
    covered := ⟨0, 0, 2, 1⟩, noisedArea := ⟨0, 0, 2, 1⟩, cw := 2, ch := 1, bgra := false,
    opaqueBlends := true }

theorem pair_asRasterised : AsRasterised pair (pair.applyEdgeNoise pair.original) := by
  refine applyEdgeNoise_asRasterised pair (by decide) fun x y _ => ?_
  have hmono : ∀ i j, i ≤ j → pair.original.byte i ≤ pair.original.byte j := by
    intro i j hij
    change (if i < 4 then 64 else 255) ≤ if j < 4 then 64 else 255
    split <;> split <;> omega
  have htop : ∀ i, pair.original.byte i ≤ 255 := by
    intro i
    change (if i < 4 then 64 else 255) ≤ 255
    split <;> decide
  exact ⟨hmono _ _ (by omega), hmono _ _ (by omega), hmono _ _ (by omega), htop _⟩

end Buffers

end FuryBrowser.EdgeNoise
