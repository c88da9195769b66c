/-! # The font

Three glyphs: the crab, the blank, and a hollow box for every other character.
A glyph is a picture in binary digits, one number a row, in which a one is a
set cell.
-/

namespace IconPainter

/-- A character's picture: its width, and a number of that many bits for each row. -/
structure Glyph where
  width : Nat
  rows : List Nat
  rows_lt : ∀ row ∈ rows, row < 1 <<< width := by decide
deriving DecidableEq

namespace Glyph

def height (g : Glyph) : Nat := g.rows.length

/-- The cell in the given column and row is set; there are none outside the picture. -/
def isSet (g : Glyph) (col row : Nat) : Bool :=
  col < g.width && (g.rows[row]?.getD 0).testBit (g.width - 1 - col)

def cells (g : Glyph) : List (Nat × Nat) :=
  (List.range g.height).flatMap fun row =>
    ((List.range g.width).filter (g.isSet · row)).map (·, row)

theorem isSet_lt {g : Glyph} {col row : Nat} (h : g.isSet col row) :
    col < g.width ∧ row < g.height := by
  simp only [isSet, Bool.and_eq_true, decide_eq_true_eq] at h
  refine ⟨h.1, ?_⟩
  by_cases hr : row < g.height
  · exact hr
  · have : g.rows[row]? = none := List.getElem?_eq_none (Nat.le_of_not_lt hr)
    simp [this] at h

theorem mem_cells {g : Glyph} {col row : Nat} : (col, row) ∈ g.cells ↔ g.isSet col row := by
  simp only [cells, List.mem_flatMap, List.mem_map, List.mem_filter, List.mem_range, Prod.mk.injEq]
  constructor
  · rintro ⟨_, _, _, ⟨_, h⟩, rfl, rfl⟩
    exact h
  · intro h
    exact ⟨row, (isSet_lt h).2, col, ⟨(isSet_lt h).1, h⟩, rfl, rfl⟩

def crab : Glyph where
  width := 16
  rows := [
    0b0100000000000010,
    0b1100000000000011,
    0b1010000000000101,
    0b1110000000000111,
    0b0100010000100010,
    0b0100110000110010,
    0b0011111111111100,
    0b0001111111111000,
    0b0011111111111100,
    0b0101010000101010,
    0b1001010000101001,
    0b0001000000001000]

def blank : Glyph where
  width := 4
  rows := List.replicate 10 0b0000

/-- The hollow box shown for a character that has no picture of its own. -/
def hollow : Glyph where
  width := 6
  rows := [0b111111] ++ List.replicate 8 0b100001 ++ [0b111111]

def ofChar : Char → Glyph
  | '🦀' => crab
  | ' ' => blank
  | _ => hollow

end Glyph

def lineHeight : Nat := 13

end IconPainter
