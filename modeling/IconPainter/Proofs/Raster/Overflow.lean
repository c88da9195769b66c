import Mathlib.Data.List.TakeWhile
import IconPainter.Proofs.Raster.Layout

/-! # Texts that are not written to their end

Writing stops at the first character that asks for a number beyond the coordinates,
whatever raster it is written on. What stands by then is what the characters before
it show, and of that character's glyph the cells before the first without
coordinates.
-/

namespace IconPainter

def pixelAt? (x y : Int) : Option (Nat × Nat) :=
  if 0 ≤ x ∧ 0 ≤ y then some (x.toNat, y.toNat) else none

namespace Writing

/-- A cell of a glyph has coordinates if the pen stands in column `x` and row `y`. -/
def Fits (x y : Int) (cell : Nat × Nat) : Prop :=
  x + cell.1 ≤ 2147483647 ∧ y + cell.2 ≤ 2147483647

instance (x y : Int) (cell : Nat × Nat) : Decidable (Fits x y cell) :=
  inferInstanceAs (Decidable (_ ∧ _))

/-- The pixels at the set cells of a character's glyph, row by row and each row from the left, up
to the first cell that has no coordinates. A line break has no glyph. -/
def pixelsReached (x y : Int) (c : Char) : List (Nat × Nat) :=
  if c = '\n' then []
  else ((Glyph.ofChar c).cells.takeWhile (Fits x y)).filterMap fun cell =>
    pixelAt? (x + cell.1) (y + cell.2)

variable {origin pen pen' : Point} {start : Coord} {before text : List Char} {c : Char}

/-! ### The first character that does not fit -/

theorem overflows_ofText {text : String} : (ofText origin text).overflows = true ↔
    after? origin.x origin text.toList = none := by
  rw [ofText, overflows_run, Option.isNone_iff_eq_none]

/-- A text is written to its end unless one of its characters overflows, the pen being where the
characters before it put it. -/
theorem after?_eq_none_iff : after? origin.x origin text = none ↔
    ∃ before c after, text = before ++ c :: after ∧
      Overflows (penColumn origin before) (penRow origin before) c := by
  induction text using List.reverseRecOn with
  | nil => simp [after?]
  | append_singleton text c ih =>
    rw [exists_split_concat (P := fun before c =>
      Overflows (penColumn origin before) (penRow origin before) c), ← ih, after?_concat]
    cases hpen : after? origin.x origin text with
    | none => simp
    | some pen =>
      obtain ⟨hx, hy⟩ := stands_of_after? hpen
      rw [Option.bind_some, next?_eq_none_iff, hx, hy]
      simp

theorem exists_stop (h : after? start pen text = none) : ∃ before c after last,
    text = before ++ c :: after ∧ after? start pen before = some last ∧
      next? start last c = none := by
  induction text generalizing pen with
  | nil => contradiction
  | cons c text ih =>
    rw [after?_cons] at h
    cases hnext : next? start pen c with
    | none => exact ⟨[], c, text, pen, rfl, rfl, hnext⟩
    | some pen' =>
      rw [hnext, Option.bind_some] at h
      obtain ⟨before, c', after, last, rfl, hlast, hstop⟩ := ih h
      exact ⟨c :: before, c', after, last, rfl, by rw [after?_cons, hnext]; exact hlast, hstop⟩

/-! ### What is written of it -/

theorem pixel?_eq (p : Point) : p.pixel? = pixelAt? p.x.val p.y.val := rfl

theorem filterMap_reached (pen : Point) (cells : List (Nat × Nat)) :
    (reached (cells.map fun cell => pen.offset? cell.1 cell.2)).filterMap Point.pixel? =
      (cells.takeWhile (Fits pen.x.val pen.y.val)).filterMap fun cell =>
        pixelAt? (pen.x.val + cell.1) (pen.y.val + cell.2) := by
  induction cells with
  | nil => rfl
  | cons cell cells ih =>
    rw [List.map_cons]
    cases hplace : pen.offset? cell.1 cell.2 with
    | none =>
      have hno : ¬ Fits pen.x.val pen.y.val cell := by
        rintro ⟨hx, hy⟩
        rcases Point.offset?_eq_none_iff.mp hplace with h | h <;> omega
      rw [List.takeWhile_cons_of_neg (by simpa using hno)]
      rfl
    | some p =>
      obtain ⟨hx, hy⟩ := Point.offset?_eq_some_iff.mp hplace
      have hfits : Fits pen.x.val pen.y.val cell := ⟨hx ▸ p.x.le_max, hy ▸ p.y.le_max⟩
      rw [List.takeWhile_cons_of_pos (by simpa using hfits), reached, List.filterMap_cons,
        List.filterMap_cons, ih, pixel?_eq, hx, hy]

theorem filterMap_covered (pen : Point) (c : Char) :
    (covered pen c).filterMap Point.pixel? = pixelsReached pen.x.val pen.y.val c := by
  unfold covered pixelsReached
  split
  · rfl
  · exact filterMap_reached pen _

theorem pixelsReached_of_fits {x y : Int} (hc : c ≠ '\n')
    (h : ∀ cell ∈ (Glyph.ofChar c).cells, Fits x y cell) :
    pixelsReached x y c =
      (Glyph.ofChar c).cells.filterMap fun cell => pixelAt? (x + cell.1) (y + cell.2) := by
  rw [pixelsReached, if_neg hc, List.takeWhile_eq_self_iff.mpr (by simpa using h)]

end Writing

/-- The crab without the right edge of its second row and all that comes after it. -/
example : Writing.pixelsReached 2147483633 13 '🦀' = [(2147483634, 13), (2147483647, 13),
    (2147483633, 14), (2147483634, 14), (2147483647, 14)] := by decide +kernel

namespace Raster

theorem paint_append (r : Raster) (cells more : List (Nat × Nat)) (ink : Color) :
    r.paint (cells ++ more) ink = (r.paint cells ink).paint more ink :=
  List.foldl_append

/-- Writing stops exactly if a character overflows, and then at the first that does, after all that
the characters before it paint and a beginning of its glyph. -/
theorem inscribe_overflow (r : Raster) (origin : Point) (text : String) (ink : Color) :
    ((r.inscribe origin text ink).2 = true ↔
      ∃ before c after, text.toList = before ++ c :: after ∧
        Writing.Overflows (Writing.penColumn origin before) (Writing.penRow origin before) c) ∧
    (∀ (before : List Char) (n : Nat), -2147483648 ≤ Writing.penColumn origin before + n ∧
      -2147483648 ≤ Writing.penRow origin before + n) ∧
    ((r.inscribe origin text ink).2 = true →
      ∃ before c after, text.toList = before ++ c :: after ∧
        Writing.Overflows (Writing.penColumn origin before) (Writing.penRow origin before) c ∧
        (∀ front c' rest, before = front ++ c' :: rest →
          ¬ Writing.Overflows (Writing.penColumn origin front) (Writing.penRow origin front) c') ∧
        ((r.inscribe origin text ink).1.width = r.width ∧
          (r.inscribe origin text ink).1.height = r.height) ∧
        (r.inscribe origin (.ofList before) ink).2 = false ∧
        (r.inscribe origin text ink).1 = (r.inscribe origin (.ofList before) ink).1.paint
          (Writing.pixelsReached (Writing.penColumn origin before) (Writing.penRow origin before) c)
          ink) ∧
    ∀ (x y : Int) (c : Char), c ≠ '\n' →
      (∀ cell ∈ (Glyph.ofChar c).cells, Writing.Fits x y cell) →
      Writing.pixelsReached x y c =
        (Glyph.ofChar c).cells.filterMap fun cell => pixelAt? (x + cell.1) (y + cell.2) := by
  have hover : (r.inscribe origin text ink).2 = true ↔
      Writing.after? origin.x origin text.toList = none := Writing.overflows_ofText
  refine ⟨hover.trans Writing.after?_eq_none_iff, fun before n => ?_, fun h => ?_,
    fun _ _ _ => Writing.pixelsReached_of_fits⟩
  · have hx := origin.x.min_le
    have hy := origin.y.min_le
    have hdown := Int.natCast_nonneg (lineHeight * before.count '\n')
    rw [Int.natCast_mul] at hdown
    unfold Writing.penColumn Writing.penRow
    omega
  · obtain ⟨before, c, after, pen, hsplit, hpen, hstop⟩ := Writing.exists_stop (hover.mp h)
    obtain ⟨hx, hy⟩ := Writing.stands_of_after? hpen
    refine ⟨before, c, after, hsplit, ?_, ?_, ⟨r.width_paint _ _, r.height_paint _ _⟩, ?_, ?_⟩
    · rw [← hx, ← hy]
      exact Writing.next?_eq_none_iff.mp hstop
    · intro front c' rest hfront hno
      have hnone := Writing.after?_eq_none_iff.mpr ⟨front, c', rest, hfront, hno⟩
      cases hpen.symm.trans hnone
    · rw [inscribe, Writing.ofText, Writing.overflows_run, String.toList_ofList, hpen]
      rfl
    · simp only [inscribe, Writing.ofText, String.toList_ofList]
      rw [hsplit, Writing.run_append hpen, Writing.run_cons, hstop, List.filterMap_append,
        Writing.filterMap_covered, paint_append, hx, hy]

/-- On the second line the crab has room for its first columns only. -/
theorem inscribe_overflow_crab :
    let origin : Point := ⟨.ofNat 2147483633, .ofNat 0⟩
    ((clear 2 2).inscribe origin "x\n🦀" Drawing.white).2 = true ∧
      ∃ before c after, "x\n🦀".toList = before ++ c :: after ∧
        Writing.Overflows (Writing.penColumn origin before) (Writing.penRow origin before) c ∧
        ((clear 2 2).inscribe origin "x\n🦀" Drawing.white).1 =
          ((clear 2 2).inscribe origin (.ofList before) Drawing.white).1.paint
            (Writing.pixelsReached (Writing.penColumn origin before)
              (Writing.penRow origin before) c) Drawing.white := by
  intro origin
  obtain ⟨-, -, hstop, -⟩ := inscribe_overflow (clear 2 2) origin "x\n🦀" Drawing.white
  have hover : ((clear 2 2).inscribe origin "x\n🦀" Drawing.white).2 = true := by decide +kernel
  obtain ⟨before, c, after, hsplit, hoverflows, -, -, -, hraster⟩ := hstop hover
  exact ⟨hover, before, c, after, hsplit, hoverflows, hraster⟩

end Raster

end IconPainter
