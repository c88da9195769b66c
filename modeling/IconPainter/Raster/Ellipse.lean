import IconPainter.Binary64
import IconPainter.Coord
import IconPainter.Raster.Basic

/-! # Ellipses

An ellipse is given by the box that it fills. A pixel belongs to it when the
pixel's centre does, which is decided in binary64: the distances of the centre
from the middle of the box, in half widths and half heights, must have squares
that add up to at most one.
-/

namespace IconPainter

/-- A box of pixels; all four edges belong to it. -/
structure Box where
  left : Coord
  top : Coord
  right : Coord
  bottom : Coord
deriving DecidableEq, Repr

/-- The distance of the centre of pixel `n` from the middle of the pixels
`first` to `last`, in units of half their extent. -/
def offCentre (first last n : Int) : Rat :=
  let middle := Binary64.div (first + last + 1 : Int) 2
  let radius := Binary64.div (last - first + 1 : Int) 2
  Binary64.div (Binary64.sub (Binary64.add n (1 / 2)) middle) radius

def offCentreSq (first last n : Int) : Rat :=
  Binary64.mul (offCentre first last n) (offCentre first last n)

def clip (first last : Int) (n : Nat) : List Nat :=
  List.range' first.toNat (min (last + 1).toNat n - first.toNat)

theorem mem_clip {first last : Int} {n k : Nat} :
    k ∈ clip first last n ↔ first ≤ k ∧ k ≤ last ∧ k < n := by
  rw [clip, List.mem_range'_1]
  omega

namespace Box

def isEmpty (b : Box) : Bool :=
  b.right.val < b.left.val || b.bottom.val < b.top.val

def holdsCentre (b : Box) (x y : Int) : Bool :=
  Binary64.add (offCentreSq b.left.val b.right.val x) (offCentreSq b.top.val b.bottom.val y) ≤ 1

/-- The pixels of the ellipse on a raster of the given size, row by row. -/
def ellipse (b : Box) (width height : Nat) : List (Nat × Nat) :=
  if b.isEmpty || width == 0 || height == 0 then []
  else
    let columns := (clip b.left.val b.right.val width).map fun (x : Nat) =>
      (x, offCentreSq b.left.val b.right.val x)
    (clip b.top.val b.bottom.val height).flatMap fun (y : Nat) =>
      let dy := offCentreSq b.top.val b.bottom.val y
      columns.filterMap fun (x, dx) => if Binary64.add dx dy ≤ 1 then some (x, y) else none

theorem mem_ellipse {b : Box} {width height x y : Nat} :
    (x, y) ∈ b.ellipse width height ↔
      b.isEmpty = false ∧ (x < width ∧ y < height) ∧
        (b.left.val ≤ x ∧ x ≤ b.right.val) ∧ (b.top.val ≤ y ∧ y ≤ b.bottom.val) ∧
        b.holdsCentre x y := by
  unfold ellipse
  split
  · rename_i h
    simp only [Bool.or_eq_true, beq_iff_eq] at h
    simp only [List.not_mem_nil, false_iff]
    rintro ⟨he, ⟨hx, hy⟩, -⟩
    rcases h with (h | h) | h
    · simp [he] at h
    · omega
    · omega
  · rename_i h
    simp only [Bool.or_eq_true, beq_iff_eq, not_or, Bool.not_eq_true] at h
    simp only [List.mem_flatMap, List.mem_filterMap, List.mem_map, mem_clip, holdsCentre,
      decide_eq_true_eq]
    constructor
    · rintro ⟨y', hy, ⟨x', dx⟩, ⟨x'', hx, heq⟩, hin⟩
      simp only [Prod.mk.injEq] at heq
      obtain ⟨rfl, rfl⟩ := heq
      simp only [Option.ite_none_right_eq_some, Option.some.injEq, Prod.mk.injEq] at hin
      obtain ⟨hle, rfl, rfl⟩ := hin
      exact ⟨h.1.1, ⟨hx.2.2, hy.2.2⟩, ⟨hx.1, hx.2.1⟩, ⟨hy.1, hy.2.1⟩, hle⟩
    · rintro ⟨-, ⟨hx, hy⟩, ⟨hl, hr⟩, ⟨ht, hb⟩, hle⟩
      exact ⟨y, ⟨ht, hb, hy⟩, (x, _), ⟨x, ⟨hl, hr, hx⟩, rfl⟩, by simp [hle]⟩

end Box

def Raster.paintEllipse (r : Raster) (b : Box) (ink : Color) : Raster :=
  r.paint (b.ellipse r.width.toNat r.height.toNat) ink

end IconPainter
