import IconPainter.Coord
import IconPainter.Font
import IconPainter.Raster.Basic

/-! # Lettering

A pen writes a text glyph by glyph, leaving one column free after each, and
goes back to its first column a line further down at a line break. Every
position that the pen computes must have coordinates, on the raster or not;
writing stops at the first one that has none, and what stands by then stays.
-/

namespace IconPainter

/-- The cells that writing a text covers, in order, and whether it stopped early. -/
structure Writing where
  cells : List Point
  overflows : Bool
deriving DecidableEq

namespace Writing

def places (g : Glyph) (pen : Point) : List (Option Point) :=
  g.cells.map fun (col, row) => pen.offset? col row

/-- The places up to the first that has no coordinates. -/
def reached : List (Option Point) → List Point
  | some p :: places => p :: reached places
  | _ => []

/-- Write the characters with the pen at `pen`; lines start in column `start`. -/
def run (start : Coord) (pen : Point) : List Char → Writing
  | [] => ⟨[], false⟩
  | c :: text =>
    if c = '\n' then
      match pen.y.advance? lineHeight with
      | none => ⟨[], true⟩
      | some y => run start ⟨start, y⟩ text
    else
      let places := places (.ofChar c) pen
      let cells := reached places
      if none ∈ places then ⟨cells, true⟩
      else match pen.x.advance? ((Glyph.ofChar c).width + 1) with
        | none => ⟨cells, true⟩
        | some x =>
          let rest := run start ⟨x, pen.y⟩ text
          ⟨cells ++ rest.cells, rest.overflows⟩

/-- Write a text whose first glyph has its upper left corner at `origin`. -/
def ofText (origin : Point) (text : String) : Writing :=
  run origin.x origin text.toList

end Writing

def Point.pixel? (p : Point) : Option (Nat × Nat) :=
  if 0 ≤ p.x.val ∧ 0 ≤ p.y.val then some (p.x.val.toNat, p.y.val.toNat) else none

def Raster.inscribe (r : Raster) (origin : Point) (text : String) (ink : Color) : Raster × Bool :=
  let writing := Writing.ofText origin text
  (r.paint (writing.cells.filterMap Point.pixel?) ink, writing.overflows)

end IconPainter
