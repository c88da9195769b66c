/-! # Coordinates

Positions on the drawing plane are 32-bit signed integers. Moving a position
to the right or downwards is the only arithmetic done on them, and it fails
where the result has no such coordinate.
-/

namespace IconPainter

/-- A signed 32-bit coordinate. -/
@[ext] structure Coord where
  val : Int
  min_le : -2147483648 ≤ val
  le_max : val ≤ 2147483647
deriving DecidableEq, Repr

namespace Coord

def ofNat (n : Nat) (h : n ≤ 2147483647 := by decide) : Coord :=
  ⟨n, by omega, by omega⟩

def ofInt? (n : Int) : Option Coord :=
  if h : -2147483648 ≤ n ∧ n ≤ 2147483647 then some ⟨n, h.1, h.2⟩ else none

/-- The coordinate `n` places further on, if there is one. -/
def advance? (c : Coord) (n : Nat) : Option Coord :=
  ofInt? (c.val + n)

theorem ofInt?_eq_some_iff {n : Int} {c : Coord} : ofInt? n = some c ↔ n = c.val := by
  unfold ofInt?
  split
  · simp [Coord.ext_iff, eq_comm]
  · rename_i h
    simp only [reduceCtorEq, false_iff]
    rintro rfl
    exact h ⟨c.min_le, c.le_max⟩

theorem advance?_eq_some_iff {c d : Coord} {n : Nat} :
    c.advance? n = some d ↔ c.val + n = d.val :=
  ofInt?_eq_some_iff

theorem advance?_eq_none_iff {c : Coord} {n : Nat} :
    c.advance? n = none ↔ 2147483647 < c.val + n := by
  have := c.min_le
  unfold advance? ofInt?
  split <;> simp <;> omega

end Coord

structure Point where
  x : Coord
  y : Coord
deriving DecidableEq, Repr

def Point.offset? (p : Point) (right down : Nat) : Option Point :=
  match p.x.advance? right, p.y.advance? down with
  | some x, some y => some ⟨x, y⟩
  | _, _ => none

end IconPainter
