import Mathlib.Algebra.GroupWithZero.Nat
import Mathlib.Data.List.Induction
import IconPainter.Proofs.Raster.Layers
import IconPainter.Proofs.Raster.Lettering

/-! # The layout of a text

The pen takes its steps one after the other, but where it stands follows from the
characters before it: the column from those of the last line, the row from the
number of line breaks. So a text that is written to its end shows the glyphs of
its characters, each at the place that the characters before it give.
-/

namespace IconPainter

def Point.coords (p : Point) : Int × Int := (p.x.val, p.y.val)

namespace Writing

def lastLine (text : List Char) : List Char := (text.reverse.takeWhile (· != '\n')).reverse

def stride (c : Char) : Nat := (Glyph.ofChar c).width + 1

/-- The column of the pen after these characters, whether it is a coordinate or not. -/
def penColumn (origin : Point) (before : List Char) : Int :=
  origin.x.val + ((lastLine before).map stride).sum

def penRow (origin : Point) (before : List Char) : Int :=
  origin.y.val + lineHeight * before.count '\n'

/-- The pen stands where it is after these characters. -/
def Stands (origin : Point) (before : List Char) (pen : Point) : Prop :=
  pen.x.val = penColumn origin before ∧ pen.y.val = penRow origin before

/-- A character with the pen in column `x` and row `y` asks for a number that is no coordinate:
a line break for the next row, any other for the next column, and one that is not blank for
the last row of its glyph. -/
def Overflows (x y : Int) (c : Char) : Prop :=
  (c = '\n' ∧ 2147483647 < y + lineHeight) ∨
    (c ≠ '\n' ∧ 2147483647 < x + (Glyph.ofChar c).width + 1) ∨
    (c ≠ '\n' ∧ c ≠ ' ' ∧ 2147483647 < y + (Glyph.ofChar c).height - 1)

/-- A character of the text that is no line break has a set cell in column `x` and row `y`. -/
def Shows (origin : Point) (text : List Char) (x y : Int) : Prop :=
  ∃ before c after, text = before ++ c :: after ∧ c ≠ '\n' ∧
    ∃ col row : Nat, (Glyph.ofChar c).isSet col row ∧
      penColumn origin before + col = x ∧ penRow origin before + row = y

def next? (start : Coord) (pen : Point) (c : Char) : Option Point :=
  if c = '\n' then (pen.y.advance? lineHeight).map (⟨start, ·⟩)
  else if (places (.ofChar c) pen).contains none then none
  else (pen.x.advance? (stride c)).map (⟨·, pen.y⟩)

def after? (start : Coord) (pen : Point) (text : List Char) : Option Point :=
  text.foldlM (next? start) pen

def covered (pen : Point) (c : Char) : List Point :=
  if c = '\n' then [] else reached (places (.ofChar c) pen)

variable {origin pen pen' : Point} {start : Coord} {before text more : List Char} {c : Char}
  {x y : Int}

/-! ### Positions of the pen -/

theorem lastLine_concat (before : List Char) (c : Char) :
    lastLine (before ++ [c]) = if c = '\n' then [] else lastLine before ++ [c] := by
  simp only [lastLine, List.reverse_append, List.reverse_singleton, List.singleton_append,
    List.takeWhile_cons, bne_iff_ne, ite_not]
  split <;> simp

theorem penColumn_concat (origin : Point) (before : List Char) (c : Char) :
    penColumn origin (before ++ [c]) =
      if c = '\n' then origin.x.val else penColumn origin before + stride c := by
  rw [penColumn, lastLine_concat]
  split
  · simp
  · simp only [penColumn, List.map_append, List.sum_append, List.map_singleton,
      List.sum_singleton]
    omega

theorem penRow_concat (origin : Point) (before : List Char) (c : Char) :
    penRow origin (before ++ [c]) =
      if c = '\n' then penRow origin before + lineHeight else penRow origin before := by
  simp only [penRow, List.count_append, List.count_singleton, beq_iff_eq]
  split
  · rw [Int.natCast_add, Int.mul_add, Int.add_assoc, Int.natCast_one, Int.mul_one]
  · rfl

theorem stands_origin (origin : Point) : Stands origin [] origin := by
  simp [Stands, penColumn, penRow, lastLine]

/-! ### One step -/

theorem run_cons (start : Coord) (pen : Point) (c : Char) (text : List Char) :
    run start pen (c :: text) = match next? start pen c with
      | none => ⟨covered pen c, true⟩
      | some pen' =>
        ⟨covered pen c ++ (run start pen' text).cells, (run start pen' text).overflows⟩ := by
  simp only [run, next?, covered, stride, List.contains_iff_mem]
  by_cases hc : c = '\n'
  · simp only [hc, if_true]
    cases pen.y.advance? lineHeight <;> rfl
  · by_cases hnone : none ∈ places (.ofChar c) pen
    · simp only [hc, hnone, if_true, if_false]
    · simp only [hc, hnone, if_false]
      cases pen.x.advance? ((Glyph.ofChar c).width + 1) <;> rfl

theorem exists_isSet_last (hc : c ≠ ' ') :
    ∃ col, (Glyph.ofChar c).isSet col ((Glyph.ofChar c).height - 1) := by
  unfold Glyph.ofChar
  split
  · exact ⟨3, by decide⟩
  · contradiction
  · exact ⟨0, by decide⟩

theorem not_isSet_blank (col row : Nat) : Glyph.blank.isSet col row = false := by
  simp only [Glyph.isSet, Glyph.blank, List.getElem?_replicate]
  split <;> simp

theorem next?_eq_none_iff : next? start pen c = none ↔ Overflows pen.x.val pen.y.val c := by
  simp only [next?, Overflows, List.contains_iff_mem]
  by_cases hc : c = '\n'
  · simp [hc, Coord.advance?_eq_none_iff]
  simp only [hc, false_and, if_false, not_false_eq_true, ne_eq, true_and, false_or]
  by_cases hnone : none ∈ places (.ofChar c) pen
  · obtain ⟨col, row, hset, hover⟩ := none_mem_places.mp hnone
    obtain ⟨hcol, hrow⟩ := Glyph.isSet_lt hset
    rw [if_pos hnone]
    refine iff_of_true rfl (hover.imp (fun h => by omega) fun h => ⟨?_, by omega⟩)
    rintro rfl
    exact absurd ((not_isSet_blank col row).symm.trans hset) Bool.false_ne_true
  · rw [if_neg hnone, Option.map_eq_none_iff, Coord.advance?_eq_none_iff, stride, Int.natCast_add,
      ← Int.add_assoc]
    refine ⟨.inl, fun h => h.resolve_right ?_⟩
    rintro ⟨hblank, h⟩
    obtain ⟨col, hset⟩ := exists_isSet_last hblank
    have hrow := (Glyph.isSet_lt hset).2
    exact hnone (none_mem_places.mpr ⟨col, _, hset, .inr (by omega)⟩)

theorem Stands.next (h : Stands origin before pen) (hnext : next? origin.x pen c = some pen') :
    Stands origin (before ++ [c]) pen' := by
  obtain ⟨hx, hy⟩ := h
  rw [Stands, penColumn_concat, penRow_concat, ← hx, ← hy]
  simp only [next?, List.contains_iff_mem] at hnext
  split at hnext
  · rename_i hc
    obtain ⟨y, hadvance, rfl⟩ := Option.map_eq_some_iff.mp hnext
    rw [if_pos hc, if_pos hc]
    exact ⟨rfl, (Coord.advance?_eq_some_iff.mp hadvance).symm⟩
  · rename_i hc
    split at hnext
    · contradiction
    · obtain ⟨x, hadvance, rfl⟩ := Option.map_eq_some_iff.mp hnext
      rw [if_neg hc, if_neg hc]
      exact ⟨(Coord.advance?_eq_some_iff.mp hadvance).symm, rfl⟩

theorem mem_coords_covered (hnext : next? start pen c = some pen') :
    (x, y) ∈ (covered pen c).map Point.coords ↔ c ≠ '\n' ∧ ∃ col row : Nat,
      (Glyph.ofChar c).isSet col row ∧ pen.x.val + col = x ∧ pen.y.val + row = y := by
  simp only [next?, List.contains_iff_mem] at hnext
  unfold covered
  split
  · rename_i hc
    simp [hc]
  rename_i hc
  rw [if_neg hc] at hnext
  split at hnext
  · contradiction
  rename_i hnone
  simp only [List.mem_map, mem_reached hnone, Point.coords, Prod.mk.injEq, ne_eq, hc,
    not_false_eq_true, true_and]
  constructor
  · rintro ⟨p, hp, rfl, rfl⟩
    exact some_mem_places.mp hp
  · rintro ⟨col, row, hset, hx, hy⟩
    have hplace : pen.offset? col row ∈ places (.ofChar c) pen :=
      List.mem_map.mpr ⟨(col, row), Glyph.mem_cells.mpr hset, rfl⟩
    obtain ⟨p, hp⟩ := Option.ne_none_iff_exists'.mp fun h => hnone (h ▸ hplace)
    obtain ⟨hpx, hpy⟩ := Point.offset?_eq_some_iff.mp hp
    exact ⟨p, hp ▸ hplace, hpx.symm.trans hx, hpy.symm.trans hy⟩

/-! ### The whole text -/

theorem after?_cons (start : Coord) (pen : Point) (c : Char) (text : List Char) :
    after? start pen (c :: text) = (next? start pen c).bind (after? start · text) :=
  List.foldlM_cons

theorem after?_concat (start : Coord) (pen : Point) (text : List Char) (c : Char) :
    after? start pen (text ++ [c]) = (after? start pen text).bind (next? start · c) := by
  simp [after?, List.foldlM_append]

theorem overflows_run (start : Coord) (pen : Point) (text : List Char) :
    (run start pen text).overflows = (after? start pen text).isNone := by
  induction text generalizing pen with
  | nil => rfl
  | cons c text ih =>
    rw [run_cons, after?_cons]
    cases next? start pen c with
    | none => rfl
    | some pen' => exact ih pen'

theorem run_append (h : after? start pen text = some pen') (more : List Char) :
    run start pen (text ++ more) = ⟨(run start pen text).cells ++ (run start pen' more).cells,
      (run start pen' more).overflows⟩ := by
  induction text generalizing pen with
  | nil =>
    cases h
    rfl
  | cons c text ih =>
    rw [after?_cons] at h
    obtain ⟨next, hnext, h⟩ := Option.bind_eq_some_iff.mp h
    simp only [List.cons_append, run_cons, hnext, ih h, List.append_assoc]

theorem stands_of_after? (h : after? origin.x origin text = some pen) :
    Stands origin text pen := by
  induction text using List.reverseRecOn generalizing pen with
  | nil =>
    cases h
    exact stands_origin origin
  | append_singleton text c ih =>
    rw [after?_concat] at h
    obtain ⟨last, hlast, hnext⟩ := Option.bind_eq_some_iff.mp h
    exact (ih hlast).next hnext

theorem exists_split_concat {P : List Char → Char → Prop} :
    (∃ before c' after, text ++ [c] = before ++ c' :: after ∧ P before c') ↔
      (∃ before c' after, text = before ++ c' :: after ∧ P before c') ∨ P text c := by
  constructor
  · rintro ⟨before, c', after, h, hP⟩
    rcases List.eq_nil_or_concat after with rfl | ⟨after, last, rfl⟩
    · obtain ⟨rfl, hc⟩ := List.append_inj' h rfl
      cases hc
      exact .inr hP
    · rw [List.concat_eq_append, ← List.cons_append, ← List.append_assoc] at h
      exact .inl ⟨before, c', after, (List.append_inj' h rfl).1, hP⟩
  · rintro (⟨before, c', after, rfl, hP⟩ | hP)
    · exact ⟨before, c', after ++ [c], by simp, hP⟩
    · exact ⟨text, c, [], rfl, hP⟩

theorem shows_concat : Shows origin (text ++ [c]) x y ↔ Shows origin text x y ∨
    (c ≠ '\n' ∧ ∃ col row : Nat, (Glyph.ofChar c).isSet col row ∧
      penColumn origin text + col = x ∧ penRow origin text + row = y) :=
  exists_split_concat

theorem shows_singleton : Shows origin [c] x y ↔ c ≠ '\n' ∧ ∃ col row : Nat,
    (Glyph.ofChar c).isSet col row ∧ origin.x.val + col = x ∧ origin.y.val + row = y := by
  rw [← List.nil_append [c], shows_concat]
  simp [Shows, penColumn, penRow, lastLine]

/-- A text that is written to its end covers the cells that it shows. -/
theorem mem_coords_run (h : after? origin.x origin text = some pen) :
    (x, y) ∈ (run origin.x origin text).cells.map Point.coords ↔ Shows origin text x y := by
  induction text using List.reverseRecOn generalizing pen with
  | nil => simp [run, Shows]
  | append_singleton text c ih =>
    rw [after?_concat] at h
    obtain ⟨last, hlast, hnext⟩ := Option.bind_eq_some_iff.mp h
    obtain ⟨hx, hy⟩ := stands_of_after? hlast
    rw [run_append hlast, run_cons, hnext, List.map_append, List.mem_append, ih hlast,
      shows_concat, ← hx, ← hy, ← mem_coords_covered hnext]
    simp only [run, List.append_nil]

theorem mem_coords_ofText {text : String} (h : (ofText origin text).overflows = false) :
    (x, y) ∈ (ofText origin text).cells.map Point.coords ↔ Shows origin text.toList x y := by
  rw [ofText, overflows_run, Option.isNone_eq_false_iff] at h
  obtain ⟨pen, hpen⟩ := Option.isSome_iff_exists.mp h
  exact mem_coords_run hpen

end Writing

theorem Point.mem_pixels {cells : List Point} {x y : Nat} :
    (x, y) ∈ cells.filterMap Point.pixel? ↔ ((x : Int), (y : Int)) ∈ cells.map Point.coords := by
  simp only [List.mem_filterMap, Point.pixel?_eq_some_iff, List.mem_map, Point.coords,
    Prod.mk.injEq]

namespace Raster

/-- A text that is written to its end leaves its ink where one of its characters has a set cell,
and nowhere else. -/
theorem inscribe_layout (r : Raster) (origin : Point) (text : String) (ink : Color)
    (h : (r.inscribe origin text ink).2 = false) :
    ((r.inscribe origin text ink).1.width = r.width ∧
      (r.inscribe origin text ink).1.height = r.height) ∧
    ∀ x y : Nat, x < r.width.toNat → y < r.height.toNat →
      (Writing.Shows origin text.toList x y →
        (r.inscribe origin text ink).1.pixel? x y = some ink) ∧
      (¬ Writing.Shows origin text.toList x y →
        (r.inscribe origin text ink).1.pixel? x y = r.pixel? x y) := by
  refine ⟨⟨r.width_paint _ _, r.height_paint _ _⟩, fun x y hx hy => ?_⟩
  have hshows : ((x : Int), (y : Int)) ∈ _ ↔ _ := Writing.mem_coords_ofText h
  obtain ⟨c, hc⟩ := r.exists_pixel? hx hy
  simp only [inscribe, pixel?_paint, Point.mem_pixels]
  constructor
  · intro hshow
    rw [if_pos (hshows.mpr hshow), hc, Option.map_some]
  · intro hno
    rw [if_neg fun hmem => hno (hshows.mp hmem)]

/-- A text of two lines, the first of which begins left of the raster; the second begins
with a blank. -/
theorem inscribe_layout_lines :
    let origin : Point := ⟨⟨-2, by decide, by decide⟩, .ofNat 0⟩
    let written := (clear 8 16).inscribe origin "🦀\n x" Drawing.white
    written.2 = false ∧ written.1.pixel? 0 2 = some Drawing.white ∧
      written.1.pixel? 2 13 = some Color.clear ∧ written.1.pixel? 3 13 = some Drawing.white := by
  intro origin written
  have hover : written.2 = false := by decide +kernel
  obtain ⟨-, hpixels⟩ := inscribe_layout _ _ _ _ hover
  refine ⟨hover, (hpixels 0 2 (by decide) (by decide)).1
      ⟨[], '🦀', "\n x".toList, by decide, by decide, 2, 2, by decide, by decide, by decide⟩,
    ((hpixels 2 13 (by decide +kernel) (by decide)).2 fun hshows => ?_).trans (by decide +kernel),
    (hpixels 3 13 (by decide) (by decide)).1
      ⟨"🦀\n ".toList, 'x', [], by decide, by decide, 0, 0, by decide, by decide, by decide⟩⟩
  exact absurd ((Writing.mem_coords_ofText hover).mpr hshows) (by decide +kernel)

end Raster

end IconPainter
