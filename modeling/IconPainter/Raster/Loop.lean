import IconPainter.Raster.Ellipse

/-! # The loop over the box

An ellipse is painted in a loop over the rows and columns of its box that are on the
raster, and all that is counted there is counted in words of 64 bits. The loop gives
up where a number does not fit its word or a pixel is not on the raster.
-/

namespace IconPainter

namespace Word

def ofInt? (n : Int) : Option Int64 :=
  if -9223372036854775808 ≤ n ∧ n ≤ 9223372036854775807 then some (.ofInt n) else none

def add? (a b : Int64) : Option Int64 := ofInt? (a.toInt + b.toInt)

def sub? (a b : Int64) : Option Int64 := ofInt? (a.toInt - b.toInt)

def ofCoord (c : Coord) : Int64 := .ofInt c.val

def ofUInt32 (n : UInt32) : Int64 := .ofInt n.toNat

/-- The word as a number of 32 bits without a sign, if it is one. -/
def toUInt32? (a : Int64) : Option UInt32 :=
  if 0 ≤ a.toInt ∧ a.toInt ≤ 4294967295 then some (.ofNat a.toInt.toNat) else none

def toBinary64 (a : Int64) : Rat := Binary64.round a.toInt

def halfNext? (a : Int64) : Option Rat := do
  let next ← add? a 1
  return Binary64.div (toBinary64 next) 2

def middle? (first last : Int64) : Option Rat := do
  let sum ← add? first last
  halfNext? sum

def radius? (first last : Int64) : Option Rat := do
  let distance ← sub? last first
  halfNext? distance

def offCentre (middle radius : Rat) (n : Int64) : Rat :=
  Binary64.div (Binary64.sub (Binary64.add (toBinary64 n) (1 / 2)) middle) radius

variable {a b c : Int64} {n : Int}

theorem ofInt?_eq_some_iff : ofInt? n = some a ↔ a.toInt = n := by
  unfold ofInt?
  split
  · rename_i h
    rw [Option.some.injEq, ← Int64.toInt_inj, Int64.toInt_ofInt_of_le (by omega) (by omega), eq_comm]
  · rename_i h
    simp only [reduceCtorEq, false_iff]
    rintro rfl
    have := a.le_toInt
    have := a.toInt_lt
    omega

theorem toInt_of_add? (h : add? a b = some c) : c.toInt = a.toInt + b.toInt :=
  ofInt?_eq_some_iff.mp h

@[simp] theorem toInt_one : (1 : Int64).toInt = 1 := by decide

theorem toInt_lt (hle : ¬ b < a) (hne : a ≠ b) : a.toInt < b.toInt := by
  rw [Int64.lt_iff_toInt_lt] at hle
  rw [ne_eq, ← Int64.toInt_inj] at hne
  omega

end Word

namespace Raster

/-- Paint a pixel, which has to be on the raster. -/
def put? (r : Raster) (x y : UInt32) (ink : Color) : Option Raster :=
  if x < r.width ∧ y < r.height then some (r.set x.toNat y.toNat ink) else none

/-- Do the same with each word from `first` to `last`, one after the other. -/
def visit (body : Int64 → Raster → Option Raster) (first last : Int64) :
    Raster → Option Raster :=
  if last < first then some
  else if first = last then body first
  else match _ : Word.add? first 1 with
    | none => fun _ => none
    | some next => fun r => (body first r).bind (visit body next last)
termination_by (last.toInt - first.toInt).toNat
decreasing_by
  rename_i hempty hlast hnext
  have hlt := Word.toInt_lt hempty hlast
  have hsucc := Word.toInt_of_add? hnext
  rw [Word.toInt_one] at hsucc
  omega

def paintPixel? (ink : Color) (dx dy : Rat) (x y : Int64) (r : Raster) : Option Raster :=
  if Binary64.add (Binary64.mul dx dx) (Binary64.mul dy dy) ≤ 1 then do
    let column ← Word.toUInt32? x
    let row ← Word.toUInt32? y
    r.put? column row ink
  else some r

def paintRow? (b : Box) (ink : Color) (middle radius dy : Rat) (width y : Int64) (r : Raster) :
    Option Raster := do
  let lastColumn ← Word.sub? width 1
  visit (fun x => paintPixel? ink (Word.offCentre middle radius x) dy x y)
    (max (Word.ofCoord b.left) 0) (min (Word.ofCoord b.right) lastColumn) r

/-- Paint an ellipse in a loop that visits only the part of its box that is on the raster. -/
def paintEllipse? (r : Raster) (b : Box) (ink : Color) : Option Raster :=
  if b.isEmpty then some r
  else do
    let middle ← Word.middle? (Word.ofCoord b.left) (Word.ofCoord b.right)
    let middle' ← Word.middle? (Word.ofCoord b.top) (Word.ofCoord b.bottom)
    let radius ← Word.radius? (Word.ofCoord b.left) (Word.ofCoord b.right)
    let radius' ← Word.radius? (Word.ofCoord b.top) (Word.ofCoord b.bottom)
    let width := Word.ofUInt32 r.width
    let height := Word.ofUInt32 r.height
    let lastRow ← Word.sub? height 1
    visit (fun y => paintRow? b ink middle radius (Word.offCentre middle' radius' y) width y)
      (max (Word.ofCoord b.top) 0) (min (Word.ofCoord b.bottom) lastRow) r

end Raster

end IconPainter
