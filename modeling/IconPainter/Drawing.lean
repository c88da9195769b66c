import IconPainter.Lettering
import IconPainter.Raster.Ellipse

/-! # Drawings

A drawing is a list of marks, put on a raster one over the other. The icon is
one such drawing, a crab; a larger raster shows the same crab with more room
to the right and below.
-/

namespace IconPainter

inductive Mark where
  | ellipse (bounds : Box) (ink : Color)
  | text (origin : Point) (content : String) (ink : Color)
deriving DecidableEq

namespace Mark

def ink : Mark → Color
  | ellipse _ ink => ink
  | text _ _ ink => ink

/-- The pixels that the mark covers on a raster of the given size, in order;
some may lie to the right of it or below. -/
def cells (width height : Nat) : Mark → List (Nat × Nat)
  | ellipse bounds _ => bounds.ellipse width height
  | text origin content _ => (Writing.ofText origin content).cells.filterMap Point.pixel?

/-- The fault that ends the mark early, if there is one. -/
def crash? : Mark → Option Crash
  | ellipse _ _ => none
  | text origin content _ =>
    if (Writing.ofText origin content).overflows then some .coordinateOverflow else none

end Mark

namespace Raster

def draw (r : Raster) (m : Mark) : Raster :=
  r.paint (m.cells r.width.toNat r.height.toNat) m.ink

def drawAll (r : Raster) : List Mark → Except Crash Raster
  | [] => .ok r
  | m :: marks =>
    match m.crash? with
    | some crash => .error crash
    | none => (r.draw m).drawAll marks

/-- The raster after a mark is tried on it, and the fault that ended the mark, if there was one. -/
def attempt (r : Raster) : Mark → Raster × Option Crash
  | .ellipse bounds ink => (r.paintEllipse bounds ink, none)
  | .text origin content ink =>
    let (written, overflows) := r.inscribe origin content ink
    (written, if overflows then some .coordinateOverflow else none)

/-- The raster after all the marks are tried on it, and how each of them ended. A fault of one
does not keep the next from being tried. -/
def attemptAll (r : Raster) : List Mark → Raster × List (Option Crash)
  | [] => (r, [])
  | m :: marks =>
    let (marked, ending) := r.attempt m
    let (final, endings) := marked.attemptAll marks
    (final, ending :: endings)

end Raster

namespace Drawing

def crabRed : Color := ⟨233, 69, 96, 255⟩

def white : Color := ⟨255, 255, 255, 255⟩

/-- The icon: the body, the two claws, and a small crab in white. -/
def crab : List Mark := [
  .ellipse ⟨.ofNat 50, .ofNat 80, .ofNat 206, .ofNat 176⟩ crabRed,
  .ellipse ⟨.ofNat 30, .ofNat 60, .ofNat 80, .ofNat 110⟩ crabRed,
  .ellipse ⟨.ofNat 176, .ofNat 60, .ofNat 226, .ofNat 110⟩ crabRed,
  .text ⟨.ofNat 100, .ofNat 105⟩ "🦀" white]

def paint (size : UInt32) : Except Crash Raster :=
  match Raster.allocate size size with
  | .error crash => .error crash
  | .ok r => r.drawAll crab

end Drawing

end IconPainter
