import IconPainter.Lettering

/-! # Where letters stand

A glyph is written with its upper left corner at the pen. If all its places
have coordinates, the cells written are its set cells, moved to the pen.
-/

namespace IconPainter

variable {g : Glyph} {pen p : Point} {x y : Nat}

theorem Point.pixel?_eq_some_iff : p.pixel? = some (x, y) ↔ p.x.val = x ∧ p.y.val = y := by
  unfold Point.pixel?
  split
  · simp only [Option.some.injEq, Prod.mk.injEq]
    omega
  · simp only [reduceCtorEq, false_iff]
    omega

theorem Point.offset?_eq_some_iff {right down : Nat} : pen.offset? right down = some p ↔
    pen.x.val + right = p.x.val ∧ pen.y.val + down = p.y.val := by
  obtain ⟨x, y⟩ := p
  rw [← Coord.advance?_eq_some_iff, ← Coord.advance?_eq_some_iff, Point.offset?]
  cases pen.x.advance? right <;> cases pen.y.advance? down <;> simp

theorem Point.offset?_eq_none_iff {right down : Nat} : pen.offset? right down = none ↔
    2147483647 < pen.x.val + right ∨ 2147483647 < pen.y.val + down := by
  rw [← Coord.advance?_eq_none_iff, ← Coord.advance?_eq_none_iff, Point.offset?]
  cases pen.x.advance? right <;> cases pen.y.advance? down <;> simp

namespace Writing

theorem mem_reached {places : List (Option Point)} (h : none ∉ places) :
    p ∈ reached places ↔ some p ∈ places := by
  induction places with
  | nil => simp [reached]
  | cons place places ih =>
    cases place with
    | none => exact (h List.mem_cons_self).elim
    | some q => simp [reached, ih fun hmem => h (List.mem_cons_of_mem _ hmem)]

theorem some_mem_places : some p ∈ places g pen ↔
    ∃ col row : Nat, g.isSet col row ∧ pen.x.val + col = p.x.val ∧ pen.y.val + row = p.y.val := by
  simp only [places, List.mem_map, Prod.exists, Glyph.mem_cells, Point.offset?_eq_some_iff]

theorem none_mem_places : none ∈ places g pen ↔ ∃ col row : Nat, g.isSet col row ∧
    (2147483647 < pen.x.val + col ∨ 2147483647 < pen.y.val + row) := by
  simp only [places, List.mem_map, Prod.exists, Glyph.mem_cells, Point.offset?_eq_none_iff]

end Writing

end IconPainter
