import IconPainter.Proofs.Raster.Drawing

/-! # Cropping

Where a raster ends has no say in what is painted on it: marks on a small
raster give the upper left corner of what they give on a large one. An ellipse
is clipped before it is painted and a text while it is, so the two come to the
same thing for different reasons; beyond that, one mark after the other.
-/

namespace IconPainter

variable {m : Mark} {marks : List Mark} {r : Raster} {width height width' height' : UInt32}
  {x y : Nat}

namespace Mark

/-- Where the raster ends has no say in which of its pixels a mark covers. -/
theorem covers_iff_of_le (hx : x < width.toNat) (hy : y < height.toNat) (hwidth : width ≤ width')
    (hheight : height ≤ height') : m.Covers width height x y ↔ m.Covers width' height' x y := by
  rw [UInt32.le_iff_toNat_le] at hwidth hheight
  have hx' := hx.trans_le hwidth
  have hy' := hy.trans_le hheight
  rw [covers_iff, covers_iff]
  cases m with
  | ellipse bounds ink => simp only [cells, Box.mem_ellipse, hx, hy, hx', hy']
  | text origin content ink => simp only [cells, hx, hy, hx', hy']

end Mark

namespace Raster

/-- The upper left corner of a raster, in the given size; clear where the raster has ended. -/
def crop (r : Raster) (width height : UInt32) : Raster where
  width
  height
  pixels := Array.ofFn fun i : Fin (width.toNat * height.toNat) =>
    (r.pixel? (i % width.toNat) (i / width.toNat)).getD Color.clear
  size_pixels := Array.size_ofFn

@[simp] theorem width_crop (r : Raster) : (r.crop width height).width = width := rfl

@[simp] theorem height_crop (r : Raster) : (r.crop width height).height = height := rfl

theorem pixel?_crop (hx : x < width.toNat) (hy : y < height.toNat) :
    (r.crop width height).pixel? x y = some ((r.pixel? x y).getD Color.clear) := by
  have hlt : y * width.toNat + x < (r.crop width height).pixels.size := by
    rw [size_pixels]
    exact cell_lt hx hy
  have hcolumn : (y * width.toNat + x) % width.toNat = x := by
    rw [Nat.mul_add_mod_self_right, Nat.mod_eq_of_lt hx]
  have hrow : (y * width.toNat + x) / width.toNat = y := by
    rw [Nat.mul_comm, Nat.mul_add_div (Nat.zero_lt_of_lt hx), Nat.div_eq_of_lt hx, Nat.add_zero]
  rw [pixel?, if_pos ⟨hx, hy⟩, width_crop, Array.getElem?_eq_getElem hlt]
  simp only [crop, Array.getElem_ofFn, hcolumn, hrow]

theorem crop_clear (hwidth : width ≤ width') (hheight : height ≤ height') :
    (clear width' height').crop width height = clear width height := by
  rw [UInt32.le_iff_toNat_le] at hwidth hheight
  refine ext_pixel? rfl rfl fun x y (hx : x < width.toNat) (hy : y < height.toNat) => ?_
  rw [pixel?_crop hx hy, pixel?_clear (hx.trans_le hwidth) (hy.trans_le hheight),
    pixel?_clear hx hy, Option.getD_some]

theorem crop_draw (hwidth : width ≤ r.width) (hheight : height ≤ r.height) (m : Mark) :
    (r.draw m).crop width height = (r.crop width height).draw m := by
  refine ext_pixel? (by simp) (by simp) fun x y (hx : x < width.toNat) (hy : y < height.toNat) => ?_
  rw [pixel?_crop hx hy, pixel?_draw, pixel?_draw, pixel?_crop hx hy]
  simp only [width_crop, height_crop, Mark.covers_iff_of_le hx hy hwidth hheight]
  by_cases h : m.Covers r.width r.height x y
  · rw [if_pos h, if_pos h, Option.getD_some]
  · rw [if_neg h, if_neg h]

theorem crop_attemptAll (hwidth : width ≤ r.width) (hheight : height ≤ r.height)
    (marks : List Mark) :
    (r.attemptAll marks).1.crop width height = ((r.crop width height).attemptAll marks).1 := by
  induction marks generalizing r with
  | nil => rfl
  | cons m marks ih =>
    have hwidth' : width ≤ (r.draw m).width := by rwa [width_draw]
    have hheight' : height ≤ (r.draw m).height := by rwa [height_draw]
    rw [attemptAll_cons, attemptAll_cons, ← crop_draw hwidth hheight, ih hwidth' hheight']

theorem allocate_of_le (hwidth : width ≤ width') (hheight : height ≤ height')
    (h : allocate width' height' = .ok r) :
    r = clear width' height' ∧ allocate width height = .ok (clear width height) := by
  rw [UInt32.le_iff_toNat_le] at hwidth hheight
  obtain ⟨hcount, rfl⟩ := allocate_eq_ok_iff.mp h
  have hle : byteCount width height ≤ byteCount width' height' :=
    Nat.mul_le_mul_right 4 (Nat.mul_le_mul hwidth hheight)
  exact ⟨rfl, allocate_eq_ok_iff.mpr ⟨hle.trans_lt hcount, rfl⟩⟩

/-- What marks give on a small raster is the upper left corner of what they give on a large one,
and they end in the same way on both. So the icon of one size is a corner of every larger one. -/
theorem attemptAll_crops :
    (∀ (marks : List Mark) (width height width' height' : UInt32) (large : Raster),
      width ≤ width' → height ≤ height' → allocate width' height' = .ok large →
      ∃ small, allocate width height = .ok small ∧
        (small.attemptAll marks).2 = (large.attemptAll marks).2 ∧
        (small.attemptAll marks).1 = (large.attemptAll marks).1.crop width height) ∧
    ∀ (size size' : UInt32) (large : Raster),
      size ≤ size' → Drawing.paint size' = .ok large →
      Drawing.paint size = .ok (large.crop size size) := by
  constructor
  · intro marks width height width' height' large hwidth hheight hlarge
    obtain ⟨rfl, hsmall⟩ := allocate_of_le hwidth hheight hlarge
    refine ⟨_, hsmall, by rw [endings_attemptAll, endings_attemptAll], ?_⟩
    rw [crop_attemptAll hwidth hheight, crop_clear hwidth hheight]
  · intro size size' large hle hlarge
    obtain ⟨hcount, heq⟩ := Drawing.paint_eq_ok_iff.mp hlarge
    have hcount' : 4 * size.toNat ^ 2 ≤ 4 * size'.toNat ^ 2 :=
      Nat.mul_le_mul_left 4 (Nat.pow_le_pow_left (UInt32.le_iff_toNat_le.mp hle) 2)
    refine Drawing.paint_eq_ok_iff.mpr ⟨hcount'.trans_lt hcount, ?_⟩
    rw [heq, crop_attemptAll hle hle, crop_clear hle hle]

/-- An ellipse that goes beyond both rasters, with a text on it that stops at its first cell
without coordinates; and the icon at a size that cuts through its body. -/
theorem attemptAll_crops_overflowing :
    let marks : List Mark := [
      .ellipse ⟨⟨-2, by decide, by decide⟩, ⟨-1, by decide, by decide⟩, .ofNat 5, .ofNat 7⟩
        Drawing.crabRed,
      .text ⟨.ofNat 0, .ofNat 2147483640⟩ "!" Drawing.white]
    (∃ small, allocate 2 1 = .ok small ∧
      (small.attemptAll marks).2 = [none, some .coordinateOverflow] ∧
      (small.attemptAll marks).1 = ((clear 4 3).attemptAll marks).1.crop 2 1) ∧
    ∃ large, Drawing.paint 256 = .ok large ∧ Drawing.paint 100 = .ok (large.crop 100 100) := by
  intro marks
  constructor
  · obtain ⟨small, hsmall, hendings, hcrop⟩ := attemptAll_crops.1 marks 2 1 4 3 (clear 4 3)
      (by decide) (by decide) (allocate_eq_ok_iff.mpr ⟨by decide, rfl⟩)
    have hlarge : ((clear 4 3).attemptAll marks).2 = [none, some .coordinateOverflow] := by
      decide +kernel
    exact ⟨small, hsmall, hendings.trans hlarge, hcrop⟩
  · obtain ⟨large, hlarge⟩ := Drawing.exists_paint_eq_ok_iff.mpr
      (show 4 * (256 : UInt32).toNat ^ 2 < 2 ^ 63 by decide)
    exact ⟨large, hlarge, attemptAll_crops.2 100 256 large (by decide) hlarge⟩

end Raster

end IconPainter
