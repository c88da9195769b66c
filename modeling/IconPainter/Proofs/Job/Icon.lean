import IconPainter.Proofs.Job.Failure
import IconPainter.Proofs.Raster.Ellipse
import IconPainter.Proofs.Raster.Layout

/-! # The icon, pixel by pixel

At every size the icon has the same colour in the same place. On top is the
small white crab, under it are three red ellipses, which are what the
comparison of squares says, and under those nothing. All colours but that of
nothing are opaque, so what is logged about a painted icon counts all that can
be seen of it.
-/

namespace IconPainter

variable {size : UInt32} {image : Raster} {x y : Nat}

namespace Mark

def bounds? : Mark → Option Box
  | ellipse bounds _ => some bounds
  | text .. => none

/-- Of ellipses in one ink, it does not matter which one is the last. -/
theorem ink_lastCovering_ellipses (boxes : List Box) (ink : Color) (width height : UInt32) :
    (lastCovering (boxes.map (ellipse · ink)) width height x y).map Mark.ink =
      if ∃ b ∈ boxes, (ellipse b ink).Covers width height x y then some ink else none := by
  cases hlast : lastCovering (boxes.map (ellipse · ink)) width height x y with
  | none =>
    rw [if_neg, Option.map_none]
    rintro ⟨b, hb, hcovers⟩
    exact lastCovering_eq_none_iff.mp hlast _ (List.mem_map_of_mem hb) hcovers
  | some m =>
    obtain ⟨hm, hcovers⟩ := covers_of_lastCovering hlast
    obtain ⟨b, hb, rfl⟩ := List.mem_map.mp hm
    rw [if_pos ⟨b, hb, hcovers⟩]
    rfl

end Mark

namespace Drawing

def crabBoxes : List Box := crab.filterMap Mark.bounds?

def smallCrab : Mark := crab.getLast (List.cons_ne_nil _ _)

theorem smallCrab_eq : smallCrab = .text ⟨.ofNat 100, .ofNat 105⟩ "🦀" white := rfl

theorem crab_eq : crab = crabBoxes.map (Mark.ellipse · crabRed) ++ [smallCrab] := rfl

/-- The colour of the icon in column `x` and row `y`. -/
def iconColor (x y : Nat) : Color :=
  if 100 ≤ x ∧ 105 ≤ y ∧ Glyph.crab.isSet (x - 100) (y - 105) then white
  else if ∃ b ∈ crabBoxes, b.Encloses x y then crabRed
  else Color.clear

theorem covers_iff_encloses {b : Box} (hb : b ∈ crabBoxes) (hx : x < size.toNat)
    (hy : y < size.toNat) : (Mark.ellipse b crabRed).Covers size size x y ↔ b.Encloses x y := by
  have hsmall : ∀ b ∈ crabBoxes, b.isEmpty = false ∧ b.columns * b.rows ≤ 2 ^ 25 := by decide
  obtain ⟨hempty, harea⟩ := hsmall b hb
  have hsize := size.toNat_lt
  rw [Mark.covers_iff, ← Box.mem_ellipse_iff_encloses hempty harea hx hsize.le hy hsize.le]
  exact and_iff_left ⟨hx, hy⟩

theorem covers_smallCrab_iff (hx : x < size.toNat) (hy : y < size.toNat) :
    smallCrab.Covers size size x y ↔
      100 ≤ x ∧ 105 ≤ y ∧ Glyph.crab.isSet (x - 100) (y - 105) := by
  have hpixels : (x, y) ∈ (Writing.ofText ⟨.ofNat 100, .ofNat 105⟩ "🦀").cells.filterMap
      Point.pixel? ↔ ∃ col row : Nat, Glyph.crab.isSet col row ∧
        (100 : Int) + col = x ∧ (105 : Int) + row = y := by
    rw [Point.mem_pixels, Writing.mem_coords_ofText (by decide +kernel)]
    exact Writing.shows_singleton.trans (and_iff_right (by decide))
  rw [Mark.covers_iff, and_iff_left ⟨hx, hy⟩, smallCrab_eq, Mark.cells, hpixels]
  constructor
  · rintro ⟨col, row, hset, hcol, hrow⟩
    obtain rfl : x = 100 + col := by omega
    obtain rfl : y = 105 + row := by omega
    simpa using hset
  · rintro ⟨hx', hy', hset⟩
    exact ⟨x - 100, y - 105, hset, by omega, by omega⟩

/-- Each pixel of the icon has its colour, at all sizes. -/
theorem pixel?_paint (h : paint size = .ok image) (hx : x < size.toNat) (hy : y < size.toNat) :
    image.pixel? x y = some (iconColor x y) := by
  have hellipses : (∃ b ∈ crabBoxes, (Mark.ellipse b crabRed).Covers size size x y) ↔
      ∃ b ∈ crabBoxes, b.Encloses x y :=
    exists_congr fun b => and_congr_right fun hb => covers_iff_encloses hb hx hy
  rw [(paint_eq_ok_iff.mp h).2, Raster.pixel?_attemptAll, Raster.pixel?_clear hx hy, crab_eq,
    Mark.lastCovering_append, Mark.lastCovering_singleton, Option.map_or,
    Mark.ink_lastCovering_ellipses]
  simp only [Raster.width_clear, Raster.height_clear, covers_smallCrab_iff hx hy, hellipses,
    iconColor]
  by_cases hcrab : 100 ≤ x ∧ 105 ≤ y ∧ Glyph.crab.isSet (x - 100) (y - 105)
  · rw [if_pos hcrab, if_pos hcrab]
    rfl
  · rw [if_neg hcrab, if_neg hcrab]
    by_cases hred : ∃ b ∈ crabBoxes, b.Encloses x y
    · rw [if_pos hred, if_pos hred]
      rfl
    · rw [if_neg hred, if_neg hred]
      rfl

theorem alpha_iconColor (x y : Nat) : (iconColor x y).alpha = 255 ∨ (iconColor x y).alpha = 0 := by
  unfold iconColor
  split_ifs
  · exact .inl rfl
  · exact .inl rfl
  · exact .inr rfl

theorem count_opaque (h : paint size = .ok image) :
    image.count (·.alpha == 255) = image.count (·.alpha != 0) := by
  refine Raster.count_congr fun x y c hc => ?_
  obtain ⟨hx, hy⟩ := Raster.lt_of_pixel? hc
  obtain ⟨hwidth, hheight⟩ := size_of_paint h
  rw [pixel?_paint h (hwidth ▸ hx) (hheight ▸ hy), Option.some.injEq] at hc
  rw [beq_iff_eq, bne_iff_ne, ← hc]
  rcases alpha_iconColor x y with halpha | halpha <;> simp [halpha]

end Drawing

namespace Job

theorem head?_events_work {codec : Codec} {j : Job} (h : Drawing.paint j.size = .ok image)
    (d : Disk) :
    ((j.work codec).run d).events.head? = some
      ((rendered image).within ⟨"generate", target, [⟨"path", .text j.destination.display⟩]⟩) := by
  simp only [work, h, deliver, Script.events_run_bind, Script.run_within,
    Script.run, List.map_cons, List.cons_append, List.head?_cons]

/-- The icon is white on the small crab, red on the rest of the three ellipses, and clear all
around, at every size that can be held; and what is logged as opaque is all that is not clear. -/
theorem icon_pixels (j : Job) (h : 4 * j.size.toNat ^ 2 ≤ 2 ^ 63 - 1) :
    ∃ image, Drawing.paint j.size = .ok image ∧
      (image.width = j.size ∧ image.height = j.size) ∧
      (∀ x y : Nat, x < j.size.toNat → y < j.size.toNat →
        image.pixel? x y = some (Drawing.iconColor x y)) ∧
      ∀ (codec : Codec) (d : Disk), ∃ e, ((j.work codec).run d).events.head? = some e ∧
        e.message = "rendered icon" ∧
        e.fields = [
          ⟨"shapes", .number 4⟩,
          ⟨"width", .number j.size.toNat⟩,
          ⟨"height", .number j.size.toNat⟩,
          ⟨"opaque", .number (image.count (·.alpha != 0))⟩] := by
  obtain ⟨image, hpaint⟩ := Drawing.exists_paint_eq_ok_iff.mpr
    (show 4 * j.size.toNat ^ 2 < 2 ^ 63 by omega)
  obtain ⟨hwidth, hheight⟩ := Drawing.size_of_paint hpaint
  refine ⟨image, hpaint, ⟨hwidth, hheight⟩, fun x y hx hy => Drawing.pixel?_paint hpaint hx hy,
    fun codec d => ⟨_, head?_events_work hpaint d, rfl, ?_⟩⟩
  rw [← Drawing.count_opaque hpaint, ← hwidth]
  simp only [Event.within, rendered, Delivery.sizeFields, hwidth, hheight]
  rfl

/-- A cell of the small crab, the body, a claw, and the gap between the claws. -/
theorem icon_pixels_standard : ∃ image, Drawing.paint Job.standard.size = .ok image ∧
    image.pixel? 101 105 = some Drawing.white ∧ image.pixel? 128 140 = some Drawing.crabRed ∧
    image.pixel? 40 70 = some Drawing.crabRed ∧ image.pixel? 128 70 = some Color.clear := by
  obtain ⟨image, hpaint, -, hpixels, -⟩ := icon_pixels Job.standard (by decide)
  exact ⟨image, hpaint, (hpixels 101 105 (by decide) (by decide)).trans (by decide),
    (hpixels 128 140 (by decide) (by decide)).trans (by decide),
    (hpixels 40 70 (by decide) (by decide)).trans (by decide),
    (hpixels 128 70 (by decide) (by decide)).trans (by decide)⟩

end Job

end IconPainter
