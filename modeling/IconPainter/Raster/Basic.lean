/-! # Rasters

A raster is a grid of coloured pixels, stored row by row. Painting replaces
all four channels of a pixel, so there is no blending, and a position outside
the grid is left alone.
-/

namespace IconPainter

structure Color where
  red : UInt8
  green : UInt8
  blue : UInt8
  alpha : UInt8
deriving DecidableEq, Repr

def Color.clear : Color := ⟨0, 0, 0, 0⟩

/-- A fault that ends the work at hand: a position without coordinates, or a
raster too large to be held. -/
inductive Crash where
  | coordinateOverflow
  | sizeOverflow
  | capacityOverflow
deriving DecidableEq, Repr

def Crash.message : Crash → String
  | coordinateOverflow => "attempt to add with overflow"
  | sizeOverflow => "Buffer length in `ImageBuffer::new` overflows usize"
  | capacityOverflow => "capacity overflow"

/-- A grid of pixels, row by row from the top, each row from the left. -/
structure Raster where
  width : UInt32
  height : UInt32
  pixels : Array Color
  size_pixels : pixels.size = width.toNat * height.toNat
deriving DecidableEq

namespace Raster

def empty : Raster := ⟨0, 0, #[], rfl⟩

instance : Inhabited Raster := ⟨empty⟩

def clear (width height : UInt32) : Raster where
  width
  height
  pixels := Array.replicate (width.toNat * height.toNat) Color.clear
  size_pixels := Array.size_replicate

def byteCount (width height : UInt32) : Nat :=
  width.toNat * height.toNat * 4

/-- A clear raster, unless its bytes cannot be counted in 64 bits or held in 63. -/
def allocate (width height : UInt32) : Except Crash Raster :=
  if UInt64.size ≤ byteCount width height then .error .sizeOverflow
  else if UInt64.size / 2 ≤ byteCount width height then .error .capacityOverflow
  else .ok (clear width height)

/-- The colour of the pixel in column `x` and row `y`, if there is such a pixel. -/
def pixel? (r : Raster) (x y : Nat) : Option Color :=
  if x < r.width.toNat ∧ y < r.height.toNat then r.pixels[y * r.width.toNat + x]? else none

def set (r : Raster) (x y : Nat) (ink : Color) : Raster :=
  if x < r.width.toNat ∧ y < r.height.toNat then
    { r with
      pixels := r.pixels.setIfInBounds (y * r.width.toNat + x) ink
      size_pixels := by rw [Array.size_setIfInBounds, r.size_pixels] }
  else r

/-- The raster with the given pixels painted, one after the other. -/
def paint (r : Raster) (cells : List (Nat × Nat)) (ink : Color) : Raster :=
  cells.foldl (fun r cell => r.set cell.1 cell.2 ink) r

def count (r : Raster) (p : Color → Bool) : Nat :=
  r.pixels.countP p

@[simp] theorem width_set (r : Raster) (x y : Nat) (ink : Color) :
    (r.set x y ink).width = r.width := by
  unfold set; split <;> rfl

@[simp] theorem height_set (r : Raster) (x y : Nat) (ink : Color) :
    (r.set x y ink).height = r.height := by
  unfold set; split <;> rfl

theorem cell_injective {w x y x' y' : Nat} (hx : x < w) (hx' : x' < w)
    (h : y * w + x = y' * w + x') : x = x' ∧ y = y' := by
  have hw : 0 < w := by omega
  have hm := congrArg (· % w) h
  have hd := congrArg (· / w) h
  simp only [Nat.mul_add_mod_self_right, Nat.mod_eq_of_lt hx, Nat.mod_eq_of_lt hx'] at hm
  simp only [Nat.mul_comm _ w, Nat.mul_add_div hw, Nat.div_eq_of_lt hx, Nat.div_eq_of_lt hx'] at hd
  exact ⟨hm, by simpa using hd⟩

theorem cell_lt {w h x y : Nat} (hx : x < w) (hy : y < h) : y * w + x < w * h := by
  have : (y + 1) * w ≤ h * w := Nat.mul_le_mul_right w hy
  rw [Nat.add_mul, Nat.one_mul, Nat.mul_comm h w] at this
  omega

theorem pixel?_set (r : Raster) (x y x' y' : Nat) (ink : Color) :
    (r.set x y ink).pixel? x' y' =
      if x' = x ∧ y' = y then (r.pixel? x' y').map fun _ => ink else r.pixel? x' y' := by
  unfold set
  split
  · rename_i hin
    unfold pixel?
    simp only
    split
    · rename_i hin'
      have hlt : y' * r.width.toNat + x' < r.pixels.size := by
        rw [r.size_pixels]; exact cell_lt hin'.1 hin'.2
      rw [Array.getElem?_setIfInBounds]
      by_cases hxy : x' = x ∧ y' = y
      · obtain ⟨rfl, rfl⟩ := hxy
        simp [hlt]
      · have : y * r.width.toNat + x ≠ y' * r.width.toNat + x' := fun h =>
          hxy (by obtain ⟨h₁, h₂⟩ := cell_injective hin.1 hin'.1 h; exact ⟨h₁.symm, h₂.symm⟩)
        simp [this, hxy]
    · simp
  · rename_i hout
    by_cases hxy : x' = x ∧ y' = y
    · obtain ⟨rfl, rfl⟩ := hxy
      simp [pixel?, hout]
    · simp [hxy]

@[simp] theorem width_paint (r : Raster) (cells : List (Nat × Nat)) (ink : Color) :
    (r.paint cells ink).width = r.width := by
  unfold paint
  induction cells generalizing r with
  | nil => rfl
  | cons cell cells ih => rw [List.foldl_cons, ih, width_set]

@[simp] theorem height_paint (r : Raster) (cells : List (Nat × Nat)) (ink : Color) :
    (r.paint cells ink).height = r.height := by
  unfold paint
  induction cells generalizing r with
  | nil => rfl
  | cons cell cells ih => rw [List.foldl_cons, ih, height_set]

theorem pixel?_paint (r : Raster) (cells : List (Nat × Nat)) (ink : Color) (x y : Nat) :
    (r.paint cells ink).pixel? x y =
      if (x, y) ∈ cells then (r.pixel? x y).map fun _ => ink else r.pixel? x y := by
  unfold paint
  induction cells generalizing r with
  | nil => simp
  | cons cell cells ih =>
    rw [List.foldl_cons, ih, pixel?_set]
    by_cases h : x = cell.1 ∧ y = cell.2
    · have : (x, y) = cell := Prod.ext h.1 h.2
      simp [h.1, h.2, Function.comp_def]
    · have : (x, y) ≠ cell := fun e => h ⟨congrArg Prod.fst e, congrArg Prod.snd e⟩
      simp [h, this]

end Raster

end IconPainter
