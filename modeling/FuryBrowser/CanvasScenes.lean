import FuryBrowser.CanvasReads

/-!
# Canvases that are painted position by position

Any canvas can be painted with inks that are exact in bytes and in half floats. What a position
shows is then the ink it was painted with, whatever the format of the store.
-/

namespace FuryBrowser.CanvasReads

open CanvasDraws (Pixel)
open EdgeNoise

section Halves

/-- The nearest of 256 levels to the value of a half float. -/
def level (low high : ℕ) : ℕ :=
  let bits := (low + 256 * high) % 2 ^ 16
  let exponent := bits / 1024 % 32
  let mantissa := bits % 1024
  if bits / 2 ^ 15 = 1 then 0
  else if exponent = 31 then (if mantissa = 0 then 255 else 0)
  else if exponent = 0 then (mantissa * 255 * 4 + 2 ^ 25) / 2 ^ 26
  else min 255 (((1024 + mantissa) * 255 * 2 ^ (exponent + 1) + 2 ^ 25) / 2 ^ 26)

/-- Skia reads each channel of half floats to the nearest level. -/
def ReadsHalves (half : List ℕ → Pixel) : Prop :=
  ∀ r r' g g' b b' a a', half [r, r', g, g', b, b', a, a'] =
    ⟨level r r', level g g', level b b', level a a'⟩

example : (level 0 0x38, level 0 0x3c, level 0 0x37, level 0 0x39) = (128, 255, 112, 159) := by
  decide

end Halves

/-- What a scene on a canvas may be: its pixels are premultiplied, and everything is bytes. -/
structure Scene.Drawn (d : Scene) (s : Surface) (half : List ℕ → Pixel) : Prop where
  /-- Half floats are read as Skia reads them. -/
  reads : d.half = half
  bytes : ∀ n, d.memory n < 256
  /-- No colour exceeds the coverage. -/
  premultiplied : ∀ x y, s.onCanvas x y = true →
    (s.pixel d x y).red ≤ (s.pixel d x y).alpha ∧ (s.pixel d x y).green ≤ (s.pixel d x y).alpha ∧
      (s.pixel d x y).blue ≤ (s.pixel d x y).alpha

section Inks

/-- A channel that both formats hold exactly. -/
inductive Shade
  | none
  | middle
  | full
  deriving DecidableEq

/-- The byte of a shade. -/
def Shade.byte : Shade → ℕ
  | none => 0
  | middle => 128
  | full => 255

/-- The upper byte of a shade's half float; the lower is zero. -/
def Shade.high : Shade → ℕ
  | none => 0
  | middle => 0x38
  | full => 0x3c

/-- A colour and its coverage. -/
structure Ink where
  red : Shade
  green : Shade
  blue : Shade
  alpha : Shade
  deriving DecidableEq

/-- The pixel of an ink. -/
def Ink.pixel (ink : Ink) : Pixel := ⟨ink.red.byte, ink.green.byte, ink.blue.byte, ink.alpha.byte⟩

/-- The bytes of an ink. -/
def Ink.bytes (ink : Ink) : ColorType → List ℕ
  | .rgba8888 => [ink.red.byte, ink.green.byte, ink.blue.byte, ink.alpha.byte]
  | .bgra8888 => [ink.blue.byte, ink.green.byte, ink.red.byte, ink.alpha.byte]
  | .rgbaF16 => [0, ink.red.high, 0, ink.green.high, 0, ink.blue.high, 0, ink.alpha.high]

/-- No colour of the ink exceeds its coverage. -/
def Ink.Premultiplied (ink : Ink) : Prop :=
  ink.red.byte ≤ ink.alpha.byte ∧ ink.green.byte ≤ ink.alpha.byte ∧
    ink.blue.byte ≤ ink.alpha.byte

instance (ink : Ink) : Decidable ink.Premultiplied :=
  inferInstanceAs (Decidable (_ ≤ _ ∧ _ ≤ _ ∧ _ ≤ _))

/-- A painted canvas, and an array that WebGL reads into. -/
def painted (s : Surface) (half : List ℕ → Pixel) (seed : UInt64) (ink : ℤ → ℤ → Ink)
    (held : ℤ → ℤ → Pixel) : Scene where
  seed := seed
  half := half
  held := held
  memory n :=
    ((ink ((n % s.rowBytes / s.colorType.bytesPerPixel : ℕ) : ℤ) ((n / s.rowBytes : ℕ) : ℤ)).bytes
      s.colorType).getD (n % s.rowBytes % s.colorType.bytesPerPixel) 0

variable {s : Surface} {half : List ℕ → Pixel} {seed : UInt64} {ink : ℤ → ℤ → Ink}
  {held : ℤ → ℤ → Pixel} {x y : ℤ}

/-- The bytes of a position are those of its ink. -/
theorem painted_byte (hon : s.onCanvas x y = true) {i : ℕ} (hi : i < s.colorType.bytesPerPixel) :
    (painted s half seed ink held).memory
      (y.toNat * s.rowBytes + x.toNat * s.colorType.bytesPerPixel + i) =
        ((ink x y).bytes s.colorType).getD i 0 := by
  have hc := (onCanvas_iff s x y).mp hon
  have hfits := s.fits
  have hx : ((x.toNat : ℕ) : ℤ) = x := by omega
  have hy : ((y.toNat : ℕ) : ℤ) = y := by omega
  have hcol : x.toNat + 1 ≤ s.width := by omega
  have hmul := Nat.mul_le_mul_left s.colorType.bytesPerPixel hcol
  rw [Nat.mul_add, Nat.mul_one, Nat.mul_comm _ x.toNat] at hmul
  have hlt : x.toNat * s.colorType.bytesPerPixel + i < s.rowBytes := by omega
  have hmod : (y.toNat * s.rowBytes + x.toNat * s.colorType.bytesPerPixel + i) % s.rowBytes =
      x.toNat * s.colorType.bytesPerPixel + i := by
    rw [Nat.add_assoc, Nat.mul_comm, Nat.mul_add_mod, Nat.mod_eq_of_lt hlt]
  have hdiv : (y.toNat * s.rowBytes + x.toNat * s.colorType.bytesPerPixel + i) / s.rowBytes =
      y.toNat := by
    rw [Nat.add_assoc, Nat.mul_comm, Nat.mul_add_div (by omega), Nat.div_eq_of_lt hlt, Nat.add_zero]
  have hcell : (x.toNat * s.colorType.bytesPerPixel + i) / s.colorType.bytesPerPixel = x.toNat := by
    rw [Nat.mul_comm, Nat.mul_add_div (by omega), Nat.div_eq_of_lt hi, Nat.add_zero]
  have hin : (x.toNat * s.colorType.bytesPerPixel + i) % s.colorType.bytesPerPixel = i := by
    rw [Nat.mul_comm, Nat.mul_add_mod, Nat.mod_eq_of_lt hi]
  simp only [painted, hmod, hdiv, hcell, hin, hx, hy]

theorem pixel_painted (hhalf : ReadsHalves half) (hon : s.onCanvas x y = true) :
    s.pixel (painted s half seed ink held) x y = (ink x y).pixel := by
  have hbyte (i : ℕ) (hi : i < s.colorType.bytesPerPixel) :
      (painted s half seed ink held).memory
        (y.toNat * s.rowBytes + x.toNat * s.colorType.bytesPerPixel + i) =
          ((ink x y).bytes s.colorType).getD i 0 := painted_byte hon hi
  rw [Surface.pixel, Surface.pixelOf]
  cases htype : s.colorType with
  | rgba8888 =>
    simp only [htype, ColorType.bytesPerPixel] at hbyte
    have h0 := hbyte 0 (by decide)
    rw [Nat.add_zero] at h0
    simp [pixelAt, h0, hbyte 1 (by decide), hbyte 2 (by decide), hbyte 3 (by decide), Ink.bytes,
      Ink.pixel]
  | bgra8888 =>
    simp only [htype, ColorType.bytesPerPixel] at hbyte
    have h0 := hbyte 0 (by decide)
    rw [Nat.add_zero] at h0
    simp [pixelAt, h0, hbyte 1 (by decide), hbyte 2 (by decide), hbyte 3 (by decide), Ink.bytes,
      Ink.pixel]
  | rgbaF16 =>
    simp only [htype, ColorType.bytesPerPixel] at hbyte
    have hall : (List.range 8).map (fun i =>
        (painted s half seed ink held).memory (y.toNat * s.rowBytes + x.toNat * 8 + i)) =
          (ink x y).bytes .rgbaF16 := by
      have hcongr : (List.range 8).map (fun i =>
          (painted s half seed ink held).memory (y.toNat * s.rowBytes + x.toNat * 8 + i)) =
            (List.range 8).map fun i => ((ink x y).bytes .rgbaF16).getD i 0 :=
        List.map_congr_left fun i hi => hbyte i (List.mem_range.mp hi)
      rw [hcongr]
      rfl
    have hshade (shade : Shade) : level 0 shade.high = shade.byte := by cases shade <;> rfl
    change half _ = _
    rw [hall, Ink.bytes, hhalf, hshade, hshade, hshade, hshade]
    rfl

/-- What is painted can be on a canvas. -/
theorem painted_drawn (hhalf : ReadsHalves half) (hink : ∀ x y, (ink x y).Premultiplied) :
    (painted s half seed ink held).Drawn s half where
  reads := rfl
  bytes n := by
    have hlow (shade : Shade) : shade.byte < 256 ∧ shade.high < 256 := by
      cases shade <;> decide
    have hall (i : Ink) (c : ColorType) : ∀ b ∈ i.bytes c, b < 256 := by
      cases c <;> simp [Ink.bytes, hlow]
    simp only [painted, List.getD_eq_getElem?_getD]
    cases hget : ((ink ((n % s.rowBytes / s.colorType.bytesPerPixel : ℕ) : ℤ)
        ((n / s.rowBytes : ℕ) : ℤ)).bytes s.colorType)[
          n % s.rowBytes % s.colorType.bytesPerPixel]? with
    | none => decide
    | some b => exact hall _ _ b (List.mem_of_getElem? hget)
  premultiplied x y hon := by
    rw [pixel_painted hhalf hon]
    exact hink x y

end Inks

section Dots

/-- Nothing is there. -/
def clear : Ink := ⟨.none, .none, .none, .none⟩

/-- Half covered with white. -/
def grey : Ink := ⟨.middle, .middle, .middle, .middle⟩

/-- White. -/
def white : Ink := ⟨.full, .full, .full, .full⟩

/-- Black. -/
def black : Ink := ⟨.none, .none, .none, .full⟩

/-- A green that is not the brightest. -/
def green : Ink := ⟨.none, .middle, .none, .full⟩

/-- One position is of another ink than the rest. -/
def dot (x y : ℤ) (ink rest : Ink) (u v : ℤ) : Ink := if u = x ∧ v = y then ink else rest

/-- A seed whose bits for a position are those of two. -/
def seedAt (x y : ℤ) : UInt64 :=
  2 ^^^ (UInt64.ofNat x.toNat * (0x100000001b3 : UInt64)) ^^^
    (UInt64.ofNat y.toNat <<< (32 : UInt64))

variable {x y u v : ℤ} {ink rest : Ink}

theorem dot_self : dot x y ink rest x y = ink := if_pos ⟨rfl, rfl⟩

theorem dot_other (h : ¬(u = x ∧ v = y)) : dot x y ink rest u v = rest := if_neg h

theorem dot_premultiplied (hink : ink.Premultiplied) (hrest : rest.Premultiplied) (u v : ℤ) :
    (dot x y ink rest u v).Premultiplied := by
  unfold dot
  split
  · exact hink
  · exact hrest

theorem hash_seedAt (x y : ℤ) : EdgeNoise.hash (seedAt x y) x y &&& 1 = 0 := by
  have htwice (b c : UInt64) : c ^^^ (c ^^^ b) = b := by
    rw [← UInt64.xor_assoc, UInt64.xor_self, UInt64.zero_xor]
  have hcancel (a b c : UInt64) : a ^^^ b ^^^ c ^^^ b ^^^ c = a := by
    rw [UInt64.xor_assoc, UInt64.xor_assoc, UInt64.xor_assoc, UInt64.xor_comm b c, htwice,
      UInt64.xor_self, UInt64.xor_zero]
  rw [EdgeNoise.hash, seedAt, hcancel]
  decide

end Dots

section Noise

variable {h : UInt64} {p : Pixel} {ns : List Pixel}

/-- A pixel without neighbours is kept. -/
theorem noisePixel_nil (h : UInt64) (opaqueBlends : Bool) (p : Pixel) :
    noisePixel h opaqueBlends p [] = p := by
  simp [noisePixel]

/-- A pixel like all its neighbours is kept. -/
theorem noisePixel_flat (h : UInt64) (opaqueBlends : Bool) (hall : ∀ n ∈ ns, n = p) :
    noisePixel h opaqueBlends p ns = p := by
  have hflat : ns.all (· = p) = true := by simpa using hall
  simp [noisePixel, hflat]

/-- A partly covered pixel with another next to it is moved. -/
theorem noisePixel_covered (opaqueBlends : Bool) (hpos : p.alpha ≠ 0) (hpart : p.alpha < 255)
    (hbit : h &&& 1 = 0) {n : Pixel} (hn : n ∈ ns) (hne : n ≠ p) :
    noisePixel h opaqueBlends p ns = recovered h p := by
  have hflat : ¬ns.all (· = p) = true := by
    intro hall
    exact hne (by simpa using List.all_eq_true.mp hall n hn)
  rw [noisePixel, if_neg hpos, if_neg hflat, if_neg (not_not.mpr hbit), if_pos hpart]

/-- A pixel that is not opaque is kept or moved. -/
theorem noisePixel_either (h : UInt64) (opaqueBlends : Bool) (hpart : p.alpha < 255) :
    noisePixel h opaqueBlends p ns = p ∨ noisePixel h opaqueBlends p ns = recovered h p := by
  rw [noisePixel, if_pos hpart]
  split_ifs
  · exact .inl rfl
  · exact .inl rfl
  · exact .inl rfl
  · exact .inr rfl

/-- An opaque pixel is kept where blends are. -/
theorem noisePixel_solid (h : UInt64) (hsolid : p.alpha = 255) :
    noisePixel h false p ns = p := by
  simp [noisePixel, hsolid]

/-- A solid pixel unlike all its neighbours, which are solid too, is a blend. -/
theorem noisePixel_blend (hbit : h &&& 1 = 0) (hsolid : p.alpha = 255) (hne : ns ≠ [])
    (hall : ∀ n ∈ ns, n ≠ p ∧ n.alpha = 255) : noisePixel h true p ns = recoloured h p := by
  have hpos : ¬p.alpha = 0 := by omega
  have hfull : ¬p.alpha < 255 := by omega
  have hflat : ¬ns.all (· = p) = true := by
    obtain ⟨n, hn⟩ := List.exists_mem_of_ne_nil _ hne
    intro hsame
    exact (hall n hn).1 (by simpa using List.all_eq_true.mp hsame n hn)
  have hblend : true = true ∧ ns.all (· ≠ p) = true ∧ ns.all (·.alpha = 255) = true := by
    refine ⟨rfl, List.all_eq_true.mpr fun n hn => ?_, List.all_eq_true.mpr fun n hn => ?_⟩
    · exact decide_eq_true (hall n hn).1
    · exact decide_eq_true (hall n hn).2
  rw [noisePixel, if_neg hpos, if_neg hflat, if_neg (not_not.mpr hbit), if_neg hfull,
    if_pos hblend]

/-- White does not stay white when a colour moves. -/
theorem recoloured_white (h : UInt64) : recoloured h white.pixel ≠ white.pixel := by
  have hnudge : nudge h 255 = 254 := by
    unfold nudge
    split <;> rfl
  unfold recoloured
  split <;> simp [white, Ink.pixel, Shade.byte, hnudge]

theorem moved_eq (h : UInt64) {alpha : ℕ} (hlow : 1 < alpha) (hhigh : alpha < 254) :
    moved h alpha = alpha + 1 ∨ moved h alpha = alpha - 1 := by
  unfold moved
  split
  · left
    simp only
    split
    · omega
    · split <;> omega
  · right
    simp only
    split
    · omega
    · split <;> omega

end Noise

end FuryBrowser.CanvasReads

/-!
## Half floats that are noised as bytes

A pixel of half floats is eight bytes, and the noise on a backing store goes over it in pieces of
four. The pieces of the left half of the canvas are moved as if each were a pixel; the right half
is out of reach.
-/

namespace FuryBrowser.CanvasReads

open CanvasDraws (Pixel)
open EdgeNoise

section Bytes

variable {c : Call} {i : ℕ}

/-- Bytes of no position that the loops come to are kept. -/
theorem applyEdgeNoise_byte_other (b : Span) (h : ∀ x y, c.usable x y = true →
    i < c.offset x y ∨ c.offset x y + 4 ≤ i) : (c.applyEdgeNoise b).byte i = b.byte i := by
  rw [Call.applyEdgeNoise]
  induction c.noisedArea.positions generalizing b with
  | nil => rfl
  | cons k ks ih =>
    rw [List.foldl_cons, ih, step_byte_other fun hk => h k.1 k.2 hk]

end Bytes

section Pieces

variable {s : Surface} {d : Scene} {x y : ℤ}

/-- A piece of four bytes of a row. -/
def piece (s : Surface) (t : Span) (i : ℕ) (y : ℤ) : Pixel :=
  pixelAt false t (y.toNat * s.rowBytes + i * 4)

/-- The backing store's bytes, noised. -/
def noisedBacking (s : Surface) (d : Scene) : Span :=
  (backingCall s d).applyEdgeNoise (backingCall s d).original

/-- A pixel of half floats that is noised as two pixels of bytes. -/
def halvesPixel (s : Surface) (d : Scene) (x y : ℤ) : Pixel :=
  s.pixelOf d.half (noisedBacking s d).byte x y

/-- A pixel of half floats is two pieces. -/
theorem pixelOf_pieces (half : List ℕ → Pixel) (t : Span) (htype : s.colorType = .rgbaF16) :
    s.pixelOf half t.byte x y =
      half [(piece s t (2 * x.toNat) y).red, (piece s t (2 * x.toNat) y).green,
        (piece s t (2 * x.toNat) y).blue, (piece s t (2 * x.toNat) y).alpha,
        (piece s t (2 * x.toNat + 1) y).red, (piece s t (2 * x.toNat + 1) y).green,
        (piece s t (2 * x.toNat + 1) y).blue, (piece s t (2 * x.toNat + 1) y).alpha] := by
  have h0 : y.toNat * s.rowBytes + 2 * x.toNat * 4 = y.toNat * s.rowBytes + x.toNat * 8 := by omega
  have h1 : y.toNat * s.rowBytes + (2 * x.toNat + 1) * 4 =
      y.toNat * s.rowBytes + x.toNat * 8 + 4 := by omega
  simp [Surface.pixelOf, htype, piece, pixelAt, h0, h1, List.range_succ, Nat.add_assoc]

/-- The pieces up to the canvas's width are noised, and those behind it are kept. -/
theorem piece_noised (htype : s.colorType = .rgbaF16) (hy : 0 ≤ y ∧ y < s.height) {i : ℕ}
    (hi : i < 2 * s.width) :
    piece s (noisedBacking s d) i y =
      if i < s.width then
        noisePixel (hash d.seed i y) true (piece s (backingCall s d).original i y)
          ((s.around i y).map fun q => piece s (backingCall s d).original q.1.toNat q.2)
      else piece s (backingCall s d).original i y := by
  have hbgra : (backingCall s d).bgra = false := by simp [backingCall, htype]
  have hoffset (u v : ℤ) : (backingCall s d).offset u v = v.toNat * s.rowBytes + u.toNat * 4 := by
    simp [Call.offset, backingCall, Surface.whole]
  split
  · rename_i hin
    have hon : s.onCanvas i y = true := (onCanvas_iff s i y).mpr ⟨by omega, hy.1, by omega, hy.2⟩
    have hnoised := backing_noised (d := d) hon
    have hpixel (q : ℤ × ℤ) : (backingCall s d).pixel q =
        piece s (backingCall s d).original q.1.toNat q.2 := by
      rw [Call.pixel, hbgra, hoffset, piece]
    have hothers : (s.around i y).map (backingCall s d).pixel =
        (s.around i y).map fun q => piece s (backingCall s d).original q.1.toNat q.2 :=
      List.map_congr_left fun q _ => hpixel q
    rw [hbgra, hoffset, hothers, hpixel (i, y)] at hnoised
    exact hnoised
  · rename_i hout
    have hfits := s.fits
    rw [htype] at hfits
    change 8 * s.width ≤ s.rowBytes at hfits
    refine pixelAt_congr false fun n hlo hhi => applyEdgeNoise_byte_other _ fun u v huv => ?_
    have hu := usable_iff.mp huv
    change _ ∧ _ ∧ u < (s.width : ℤ) ∧ v < (s.height : ℤ) ∧ _ at hu
    rw [hoffset]
    -- Rows are apart, and in the row the pieces that are moved come first.
    rcases Nat.lt_trichotomy v.toNat y.toNat with hv | hv | hv
    · have hmul := Nat.mul_le_mul_right s.rowBytes hv
      rw [Nat.succ_mul] at hmul
      exact .inr (by omega)
    · rw [hv]
      exact .inr (by omega)
    · have hmul := Nat.mul_le_mul_right s.rowBytes hv
      rw [Nat.succ_mul] at hmul
      exact .inl (by omega)

/-- A piece whose last byte is not full is kept or moved. -/
theorem piece_either (htype : s.colorType = .rgbaF16) (hy : 0 ≤ y ∧ y < s.height) {i : ℕ}
    (hi : i < 2 * s.width) {p : Pixel} (hp : piece s (backingCall s d).original i y = p)
    (hpart : p.alpha < 255) :
    piece s (noisedBacking s d) i y = p ∨ ∃ h, piece s (noisedBacking s d) i y = recovered h p := by
  rw [piece_noised htype hy hi, hp]
  split
  · exact (noisePixel_either _ true hpart).imp id fun hmoved => ⟨_, hmoved⟩
  · exact .inl rfl

/-- A position without neighbours is the whole canvas. -/
theorem around_eq_nil (hon : s.onCanvas x y = true) :
    s.around x y = [] ↔ s.width = 1 ∧ s.height = 1 := by
  have hc := (onCanvas_iff s x y).mp hon
  have hnone (q : ℤ × ℤ) (hq : q ∈ nextTo x y) (hnil : s.around x y = []) :
      ¬s.onCanvas q.1 q.2 = true := by
    intro hqon
    have hmem : q ∈ s.around x y := List.mem_filter.mpr ⟨hq, hqon⟩
    rw [hnil] at hmem
    cases hmem
  constructor
  · intro hnil
    have hleft := hnone (x - 1, y) (mem_nextTo.mpr (.inl rfl)) hnil
    have hright := hnone (x + 1, y) (mem_nextTo.mpr (.inr (.inl rfl))) hnil
    have hup := hnone (x, y - 1) (mem_nextTo.mpr (.inr (.inr (.inl rfl)))) hnil
    have hdown := hnone (x, y + 1) (mem_nextTo.mpr (.inr (.inr (.inr rfl)))) hnil
    rw [onCanvas_iff] at hleft hright hup hdown
    simp only at hleft hright hup hdown
    omega
  · rintro ⟨hw, hh⟩
    rw [Surface.around, List.filter_eq_nil_iff]
    intro q hq hqon
    have hq' := (onCanvas_iff s _ _).mp hqon
    rcases mem_nextTo.mp hq with rfl | rfl | rfl | rfl <;> simp only at hq' <;> omega

/-- Half floats that the noise does not reach, or that are alone, are kept. -/
theorem halvesPixel_idle (htype : s.colorType = .rgbaF16) (hon : s.onCanvas x y = true)
    (hidle : s.around x y = [] ∨ (s.width : ℤ) ≤ 2 * x) : halvesPixel s d x y = s.pixel d x y := by
  have hc := (onCanvas_iff s x y).mp hon
  have hkept (i : ℕ) (hi : i = 2 * x.toNat ∨ i = 2 * x.toNat + 1) :
      piece s (noisedBacking s d) i y = piece s (backingCall s d).original i y := by
    rw [piece_noised htype ⟨hc.2.1, hc.2.2.2⟩ (by omega)]
    split
    · rename_i hlt
      rcases hidle with hnil | hwide
      · have hone := (around_eq_nil hon).mp hnil
        have honi : s.onCanvas i y = true := by
          rw [onCanvas_iff]
          omega
        rw [(around_eq_nil honi).mpr hone, List.map_nil, noisePixel_nil]
      · omega
    · rfl
  have horiginal : (backingCall s d).original.byte = d.memory := rfl
  rw [halvesPixel, Surface.pixel, pixelOf_pieces _ _ htype, hkept _ (.inl rfl), hkept _ (.inr rfl),
    ← horiginal, pixelOf_pieces _ _ htype]

end Pieces

section Painted

variable {s : Surface} {half : List ℕ → Pixel} {seed : UInt64} {ink : ℤ → ℤ → Ink}
  {held : ℤ → ℤ → Pixel} {x y : ℤ}

/-- Two channels of an ink, as the noise takes them. -/
def Ink.piece (ink : Ink) (i : ℕ) : Pixel :=
  if i % 2 = 0 then ⟨0, ink.red.high, 0, ink.green.high⟩ else ⟨0, ink.blue.high, 0, ink.alpha.high⟩

theorem piece_painted (htype : s.colorType = .rgbaF16) (hy : 0 ≤ y ∧ y < s.height) {i : ℕ}
    (hi : i < 2 * s.width) :
    piece s (backingCall s (painted s half seed ink held)).original i y =
      (ink (i / 2 : ℕ) y).piece i := by
  have hon : s.onCanvas (i / 2 : ℕ) y = true := by
    rw [onCanvas_iff]
    omega
  have hbyte (n : ℕ) (hn : n < s.colorType.bytesPerPixel) :
      (painted s half seed ink held).memory
        (y.toNat * s.rowBytes + ((i / 2 : ℕ) : ℤ).toNat * s.colorType.bytesPerPixel + n) =
          ((ink (i / 2 : ℕ) y).bytes s.colorType).getD n 0 := painted_byte hon hn
  simp only [htype, ColorType.bytesPerPixel, Int.toNat_natCast] at hbyte
  have hmemory : (backingCall s (painted s half seed ink held)).original.byte =
      (painted s half seed ink held).memory := rfl
  rcases Nat.mod_two_eq_zero_or_one i with heven | hodd
  · have hstart : y.toNat * s.rowBytes + i * 4 = y.toNat * s.rowBytes + i / 2 * 8 := by omega
    have h0 := hbyte 0 (by decide)
    rw [Nat.add_zero] at h0
    simp [piece, pixelAt, Ink.piece, heven, hmemory, hstart, h0, hbyte 1 (by decide),
      hbyte 2 (by decide), hbyte 3 (by decide), Ink.bytes]
  · have hstart : y.toNat * s.rowBytes + i * 4 = y.toNat * s.rowBytes + i / 2 * 8 + 4 := by omega
    simp only [Nat.add_assoc] at hbyte
    simp [piece, pixelAt, Ink.piece, hodd, hmemory, hstart, Nat.add_assoc, hbyte 4 (by decide),
      hbyte 5 (by decide), hbyte 6 (by decide), hbyte 7 (by decide), Ink.bytes]

/-- A piece with nothing but two upper bytes keeps them equal when it is moved. -/
theorem recovered_piece (h : UInt64) (colour : ℕ) (hcolour : colour = 0 ∨ colour = 56) :
    recovered h ⟨0, colour, 0, 56⟩ = ⟨0, if colour = 0 then 0 else 55, 0, 55⟩ ∨
      recovered h ⟨0, colour, 0, 56⟩ = ⟨0, if colour = 0 then 0 else 57, 0, 57⟩ := by
  have hmoved : moved h 56 = 57 ∨ moved h 56 = 55 := moved_eq h (by decide) (by decide)
  rcases hmoved with hm | hm <;> rcases hcolour with rfl | rfl <;> simp [recovered, hm, rescaled]

/-- Grey is moved by far more than a step, if it is moved. -/
theorem halvesPixel_grey (hhalf : ReadsHalves half) (htype : s.colorType = .rgbaF16)
    (hon : s.onCanvas x y = true) (hink : ink x y = grey) :
    (halvesPixel s (painted s half seed ink held) x y).alpha = 128 ∨
      (halvesPixel s (painted s half seed ink held) x y).alpha = 112 ∨
      (halvesPixel s (painted s half seed ink held) x y).alpha = 159 := by
  have hc := (onCanvas_iff s x y).mp hon
  have hhalf' : (painted s half seed ink held).half = half := rfl
  have hi : 2 * x.toNat + 1 < 2 * s.width := by omega
  have hx : (((2 * x.toNat + 1) / 2 : ℕ) : ℤ) = x := by omega
  have hpiece : piece s (backingCall s (painted s half seed ink held)).original
      (2 * x.toNat + 1) y = ⟨0, 56, 0, 56⟩ := by
    have hodd : (2 * x.toNat + 1) % 2 = 1 := by omega
    rw [piece_painted htype ⟨hc.2.1, hc.2.2.2⟩ hi, hx, hink, Ink.piece, hodd]
    rfl
  rw [halvesPixel, pixelOf_pieces _ _ htype, hhalf', hhalf]
  rcases piece_either htype ⟨hc.2.1, hc.2.2.2⟩ hi hpiece (by decide) with hkept | ⟨h, hmoved⟩
  · rw [hkept]
    exact .inl rfl
  · rw [hmoved]
    rcases recovered_piece h 56 (.inr rfl) with hdown | hup
    · rw [hdown]
      exact .inr (.inl rfl)
    · rw [hup]
      exact .inr (.inr rfl)

/-- A green dot that the noise reaches loses its colour. -/
theorem halvesPixel_green (hhalf : ReadsHalves half) (htype : s.colorType = .rgbaF16)
    (hon : s.onCanvas x y = true) (hnot : s.around x y ≠ []) (hreach : 2 * x < s.width) :
    halvesPixel s (painted s half (seedAt (2 * x) y) (dot x y green clear) held) x y ≠
      green.pixel := by
  have hc := (onCanvas_iff s x y).mp hon
  have hi : 2 * x.toNat < 2 * s.width := by omega
  have hlt : 2 * x.toNat < s.width := by omega
  have hcast : ((2 * x.toNat : ℕ) : ℤ) = 2 * x := by omega
  have hy : 0 ≤ y ∧ y < s.height := ⟨hc.2.1, hc.2.2.2⟩
  have hone : s.onCanvas (2 * x) y = true := by
    rw [onCanvas_iff]
    omega
  have hpiece : piece s (backingCall s (painted s half (seedAt (2 * x) y) (dot x y green clear)
      held)).original (2 * x.toNat) y = ⟨0, 0, 0, 56⟩ := by
    have hx : ((2 * x.toNat / 2 : ℕ) : ℤ) = x := by omega
    have heven : 2 * x.toNat % 2 = 0 := by omega
    rw [piece_painted htype hy hi, hx, dot_self, Ink.piece, heven]
    rfl
  obtain ⟨q, hq⟩ : ∃ q, q ∈ s.around (2 * x) y := by
    refine List.exists_mem_of_ne_nil _ fun hnil => hnot ?_
    exact (around_eq_nil hon).mpr ((around_eq_nil hone).mp hnil)
  have hne : piece s (backingCall s (painted s half (seedAt (2 * x) y) (dot x y green clear)
      held)).original q.1.toNat q.2 ≠ ⟨0, 0, 0, 56⟩ := by
    obtain ⟨hnext, hqon⟩ := List.mem_filter.mp hq
    have hq' := (onCanvas_iff s _ _).mp hqon
    rw [piece_painted htype ⟨hq'.2.1, hq'.2.2.2⟩ (by omega)]
    -- The other piece of the dot ends in a full coverage, and the other pixels are clear.
    rcases Nat.mod_two_eq_zero_or_one q.1.toNat with heven | hodd
    · have hother : ¬(((q.1.toNat / 2 : ℕ) : ℤ) = x ∧ q.2 = y) := by
        rintro ⟨hqx, hqy⟩
        rcases mem_nextTo.mp hnext with rfl | rfl | rfl | rfl <;> simp only at * <;> omega
      rw [dot_other hother, Ink.piece, if_pos heven]
      decide
    · unfold dot
      rw [Ink.piece, if_neg (by omega)]
      split <;> decide
  have hnoised : piece s (noisedBacking s (painted s half (seedAt (2 * x) y) (dot x y green clear)
      held)) (2 * x.toNat) y = recovered (EdgeNoise.hash (seedAt (2 * x) y) (2 * x) y)
        ⟨0, 0, 0, 56⟩ := by
    rw [piece_noised htype hy hi, if_pos hlt, hpiece, hcast]
    exact noisePixel_covered true (by decide) (by decide) (hash_seedAt _ _)
      (List.mem_map_of_mem hq) hne
  have hhalf' : (painted s half (seedAt (2 * x) y) (dot x y green clear) held).half = half := rfl
  intro heq
  have hgreen := congrArg Pixel.green heq
  rw [halvesPixel, pixelOf_pieces _ _ htype, hhalf', hhalf, hnoised] at hgreen
  rcases recovered_piece (EdgeNoise.hash (seedAt (2 * x) y) (2 * x) y) 0 (.inl rfl) with hdown | hup
  · have hother : level 0 55 ≠ 128 := by decide
    rw [hdown] at hgreen
    exact hother hgreen
  · have hother : level 0 57 ≠ 128 := by decide
    rw [hup] at hgreen
    exact hother hgreen

end Painted

end FuryBrowser.CanvasReads
