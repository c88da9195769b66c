import Mathlib.Data.List.Nodup
import Mathlib.Tactic.Ring
import IconPainter.Proofs.Raster.Layout

/-! # The room around letters

After each glyph the pen leaves a column free, and all glyphs are lower than a line. So
the rectangles that the glyphs of a text take up are apart, with a free column between
those on one line and a free row between those on different lines. Hence no cell is
written twice, and what can be seen of a text on a raster with room for it are the set
cells of its glyphs, each counted once.
-/

namespace IconPainter

variable {origin pen pen' : Point} {start : Coord} {c c' : Char} {x y : Int}
  {before more between rest front back text : List Char}

/-! ### Glyphs -/

namespace Glyph

theorem height_lt_lineHeight (c : Char) : (ofChar c).height < lineHeight := by
  unfold ofChar
  split <;> decide

theorem nodup_cells (g : Glyph) : g.cells.Nodup := by
  refine List.nodup_flatMap.mpr ⟨fun row _ => ?_, ?_⟩
  · refine (List.nodup_range.filter _).map ?_
    intro col col' h
    exact congrArg Prod.fst h
  · refine List.nodup_range.imp fun {row row'} hne cell hcell hcell' => hne ?_
    obtain ⟨col, -, rfl⟩ := List.mem_map.mp hcell
    obtain ⟨col', -, h⟩ := List.mem_map.mp hcell'
    exact (congrArg Prod.snd h).symm

end Glyph

namespace Writing

/-- The position lies in the rectangle that a character's glyph takes up after the characters
`before`, whether its cell there is set or not. -/
def Frames (origin : Point) (before : List Char) (c : Char) (x y : Int) : Prop :=
  (penColumn origin before ≤ x ∧ x < penColumn origin before + (Glyph.ofChar c).width) ∧
    penRow origin before ≤ y ∧ y < penRow origin before + (Glyph.ofChar c).height

/-- Row `y` belongs to the line that the pen is on after the characters `before`. -/
def OnLine (origin : Point) (before : List Char) (y : Int) : Prop :=
  penRow origin before ≤ y ∧ y < penRow origin before + lineHeight

/-! ### Two characters of a text -/

theorem penRow_append (origin : Point) (before more : List Char) :
    penRow origin (before ++ more) = penRow origin before + lineHeight * more.count '\n' := by
  rw [penRow, penRow, List.count_append]
  push_cast
  ring

theorem penColumn_le_append (origin : Point) (before : List Char) (h : '\n' ∉ more) :
    penColumn origin before ≤ penColumn origin (before ++ more) := by
  induction more using List.reverseRecOn with
  | nil => rw [List.append_nil]
  | append_singleton more c ih =>
    rw [List.mem_append, List.mem_singleton, not_or] at h
    rw [← List.append_assoc, penColumn_concat, if_neg (Ne.symm h.2)]
    have := ih h.1
    omega

theorem penColumn_lt_append (origin : Point) (before : List Char) (hc : c ≠ '\n')
    (h : '\n' ∉ between) : penColumn origin before + (Glyph.ofChar c).width <
      penColumn origin (before ++ c :: between) := by
  have hle := penColumn_le_append origin (before ++ [c]) h
  rw [penColumn_concat, if_neg hc, List.append_assoc, List.singleton_append, stride] at hle
  omega

theorem penRow_lt_append (origin : Point) (before : List Char) (h : '\n' ∈ between) :
    penRow origin before + lineHeight ≤ penRow origin (before ++ c :: between) := by
  have hcount : 0 < (c :: between).count '\n' :=
    List.count_pos_iff.mpr (List.mem_cons_of_mem c h)
  rw [penRow_append, lineHeight]
  omega

theorem split_cases (h : before ++ c :: rest = front ++ c' :: back) :
    (front = before ∧ c' = c) ∨ (∃ between, front = before ++ c :: between) ∨
      ∃ between, before = front ++ c' :: between := by
  rcases List.append_eq_append_iff.mp h with ⟨more, rfl, heq⟩ | ⟨more, rfl, heq⟩
  · rcases List.cons_eq_append_iff.mp heq with ⟨rfl, heq⟩ | ⟨between, rfl, -⟩
    · exact .inl ⟨List.append_nil _, (List.cons.inj heq).1.symm⟩
    · exact .inr (.inl ⟨between, rfl⟩)
  · rcases List.cons_eq_append_iff.mp heq with ⟨rfl, heq⟩ | ⟨between, rfl, -⟩
    · exact .inl ⟨(List.append_nil _).symm, (List.cons.inj heq).1⟩
    · exact .inr (.inr ⟨between, rfl⟩)

/-! ### Free columns and rows -/

theorem frames_of_isSet {col row : Nat} (h : (Glyph.ofChar c).isSet col row) :
    Frames origin before c (penColumn origin before + col) (penRow origin before + row) := by
  obtain ⟨hcol, hrow⟩ := Glyph.isSet_lt h
  unfold Frames
  omega

theorem Shows.exists_frames (h : Shows origin text x y) : ∃ before c after,
    text = before ++ c :: after ∧ c ≠ '\n' ∧ Frames origin before c x y := by
  obtain ⟨before, c, after, hsplit, hc, col, row, hset, rfl, rfl⟩ := h
  exact ⟨before, c, after, hsplit, hc, frames_of_isSet hset⟩

theorem Frames.onLine (h : Frames origin before c x y) : OnLine origin before y := by
  have := Glyph.height_lt_lineHeight c
  unfold Frames at h
  unfold OnLine
  omega

theorem penRow_eq_of_onLine (h : OnLine origin before y) (h' : OnLine origin front y) :
    before.count '\n' = front.count '\n' := by
  unfold OnLine penRow lineHeight at h h'
  omega

theorem newline_notMem (h : before.count '\n' = (before ++ more).count '\n') : '\n' ∉ more := by
  rw [List.count_append] at h
  exact List.count_eq_zero.mp (by omega)

theorem not_frames_column (h : before ++ c :: rest = front ++ c' :: back) (hc : c ≠ '\n')
    (hc' : c' ≠ '\n') (hy : OnLine origin before y) :
    ¬ Frames origin front c' (penColumn origin before + (Glyph.ofChar c).width) y := by
  intro hframes
  have hline := penRow_eq_of_onLine hy hframes.onLine
  obtain ⟨⟨hleft, hright⟩, -⟩ := hframes
  rcases split_cases h with ⟨rfl, rfl⟩ | ⟨between, rfl⟩ | ⟨between, rfl⟩
  · omega
  · have hlater := penColumn_lt_append origin before hc
      (List.not_mem_of_not_mem_cons (newline_notMem hline))
    omega
  · have hearlier := penColumn_lt_append origin front hc'
      (List.not_mem_of_not_mem_cons (newline_notMem hline.symm))
    omega

theorem not_frames_row : ¬ Frames origin front c x (penRow origin before + (lineHeight - 1)) := by
  have := Glyph.height_lt_lineHeight c
  rintro ⟨-, htop, hbottom⟩
  unfold penRow lineHeight at *
  omega

theorem not_frames_both (hc : c ≠ '\n') (h : Frames origin before c x y) :
    ¬ Frames origin (before ++ c :: between) c' x y := by
  intro h'
  by_cases hbetween : '\n' ∈ between
  · have hrow := penRow_lt_append (c := c) origin before hbetween
    have hheight := Glyph.height_lt_lineHeight c
    obtain ⟨-, -, hbottom⟩ := h
    obtain ⟨-, htop, -⟩ := h'
    omega
  · have hcolumn := penColumn_lt_append origin before hc hbetween
    obtain ⟨⟨-, hright⟩, -⟩ := h
    obtain ⟨⟨hleft, -⟩, -⟩ := h'
    omega

/-! ### The cells that are written -/

theorem map_coords_reached (pen : Point) (cells : List (Nat × Nat))
    (h : none ∉ cells.map fun cell => pen.offset? cell.1 cell.2) :
    (reached (cells.map fun cell => pen.offset? cell.1 cell.2)).map Point.coords =
      cells.map fun cell => (pen.x.val + cell.1, pen.y.val + cell.2) := by
  induction cells with
  | nil => rfl
  | cons cell cells ih =>
    rw [List.map_cons, List.mem_cons, not_or] at h
    obtain ⟨p, hp⟩ := Option.ne_none_iff_exists'.mp (Ne.symm h.1)
    obtain ⟨hx, hy⟩ := Point.offset?_eq_some_iff.mp hp
    rw [List.map_cons, hp, reached, List.map_cons, List.map_cons, ih h.2, hx, hy]
    rfl

theorem map_coords_covered (hc : c ≠ '\n') (hnext : next? start pen c = some pen') :
    (covered pen c).map Point.coords =
      (Glyph.ofChar c).cells.map fun cell => (pen.x.val + cell.1, pen.y.val + cell.2) := by
  simp only [next?, if_neg hc, List.contains_iff_mem] at hnext
  rw [covered, if_neg hc]
  split at hnext
  · contradiction
  · rename_i hnone
    exact map_coords_reached pen _ hnone

theorem nodup_coords_covered (hnext : next? start pen c = some pen') :
    ((covered pen c).map Point.coords).Nodup := by
  by_cases hc : c = '\n'
  · rw [covered, if_pos hc]
    exact List.nodup_nil
  · rw [map_coords_covered hc hnext]
    refine (Glyph.ofChar c).nodup_cells.map fun cell cell' h => ?_
    simp only [Prod.mk.injEq, Int.add_right_inj, Int.natCast_inj] at h
    exact Prod.ext h.1 h.2

theorem cells_run_concat (hpen : after? start pen text = some pen')
    (hnext : next? start pen' c ≠ none) : (run start pen (text ++ [c])).cells =
      (run start pen text).cells ++ covered pen' c := by
  obtain ⟨last, hlast⟩ := Option.ne_none_iff_exists'.mp hnext
  rw [run_append hpen, run_cons, hlast]
  simp only [run, List.append_nil]

/-- No cell is written twice in a text that is written to its end. -/
theorem nodup_coords_run (h : after? origin.x origin text = some pen) :
    ((run origin.x origin text).cells.map Point.coords).Nodup := by
  induction text using List.reverseRecOn generalizing pen with
  | nil => exact List.nodup_nil
  | append_singleton text c ih =>
    rw [after?_concat] at h
    obtain ⟨last, hlast, hnext⟩ := Option.bind_eq_some_iff.mp h
    obtain ⟨hx, hy⟩ := stands_of_after? hlast
    rw [cells_run_concat hlast (hnext ▸ Option.some_ne_none _), List.map_append]
    refine List.nodup_append'.mpr ⟨ih hlast, nodup_coords_covered hnext, ?_⟩
    intro p hp hp'
    obtain ⟨before, c', between, rfl, hc', hframes⟩ := ((mem_coords_run hlast).mp hp).exists_frames
    obtain ⟨-, col, row, hset, hcol, hrow⟩ := (mem_coords_covered hnext).mp hp'
    rw [hx] at hcol
    rw [hy] at hrow
    exact not_frames_both hc' hframes (hcol ▸ hrow ▸ frames_of_isSet hset)

theorem length_cells_run (h : after? start pen text = some pen') :
    (run start pen text).cells.length =
      ((text.filter (· != '\n')).map fun c => (Glyph.ofChar c).cells.length).sum := by
  induction text generalizing pen with
  | nil => rfl
  | cons c text ih =>
    rw [after?_cons] at h
    obtain ⟨next, hnext, h⟩ := Option.bind_eq_some_iff.mp h
    simp only [run_cons, hnext, List.length_append, ih h]
    by_cases hc : c = '\n'
    · simp [hc, covered]
    · have hlength := congrArg List.length (map_coords_covered hc hnext)
      rw [List.length_map, List.length_map] at hlength
      simp [hc, hlength]

theorem exists_frames_of_mem {p : Point} (h : after? origin.x origin text = some pen)
    (hp : p ∈ (run origin.x origin text).cells) : ∃ before c after,
      text = before ++ c :: after ∧ c ≠ '\n' ∧ Frames origin before c p.x.val p.y.val :=
  ((mem_coords_run h).mp (List.mem_map_of_mem hp)).exists_frames

/-- Between two glyphs on one line there is a column in which nothing is written on that line. -/
theorem exists_free_column (h : after? origin.x origin text = some pen)
    (hsplit : text = before ++ c :: (between ++ c' :: rest)) (hc : c ≠ '\n')
    (hbetween : '\n' ∉ between) : ∃ column,
      (∀ x y, Frames origin before c x y → x < column) ∧
      (∀ x y, Frames origin (before ++ c :: between) c' x y → column < x) ∧
      ∀ p ∈ (run origin.x origin text).cells, OnLine origin before p.y.val → p.x.val ≠ column := by
  have hapart := penColumn_lt_append origin before hc hbetween
  refine ⟨penColumn origin before + (Glyph.ofChar c).width, ?_, ?_, ?_⟩
  · intro x y hframes
    exact hframes.1.2
  · intro x y hframes
    exact hapart.trans_le hframes.1.1
  · intro p hp hline hcolumn
    obtain ⟨front, d, back, hsplit', hd, hframes⟩ := exists_frames_of_mem h hp
    rw [hcolumn] at hframes
    exact not_frames_column (hsplit.symm.trans hsplit') hc hd hline hframes

/-- Between two glyphs on different lines there is a row in which nothing is written at all. -/
theorem exists_free_row (h : after? origin.x origin text = some pen) (before : List Char)
    (c c' : Char) (hbetween : '\n' ∈ between) : ∃ row,
      (∀ x y, Frames origin before c x y → y < row) ∧
      (∀ x y, Frames origin (before ++ c :: between) c' x y → row < y) ∧
      ∀ p ∈ (run origin.x origin text).cells, p.y.val ≠ row := by
  have hapart := penRow_lt_append (c := c) origin before hbetween
  have hheight := Glyph.height_lt_lineHeight c
  refine ⟨penRow origin before + (lineHeight - 1), ?_, ?_, ?_⟩
  · intro x y hframes
    have := hframes.2.2
    omega
  · intro x y hframes
    have := hframes.2.1
    omega
  · intro p hp hrow
    obtain ⟨front, d, back, -, -, hframes⟩ := exists_frames_of_mem h hp
    rw [hrow] at hframes
    exact not_frames_row hframes

end Writing

theorem Point.eq_of_pixel? {p q : Point} {cell : Nat × Nat} (hp : p.pixel? = some cell)
    (hq : q.pixel? = some cell) : p = q := by
  obtain ⟨hx, hy⟩ := Point.pixel?_eq_some_iff.mp hp
  obtain ⟨hx', hy'⟩ := Point.pixel?_eq_some_iff.mp hq
  cases p
  cases q
  simp only [Point.mk.injEq, Coord.ext_iff]
  exact ⟨hx.trans hx'.symm, hy.trans hy'.symm⟩

theorem Writing.nodup_pixels_run (h : after? origin.x origin text = some pen) :
    ((run origin.x origin text).cells.filterMap Point.pixel?).Nodup :=
  (nodup_coords_run h).of_map.filterMap fun _ _ _ => Point.eq_of_pixel?

namespace Raster

/-- The rectangles that the glyphs of a text take up lie on the raster. -/
def HasRoom (r : Raster) (origin : Point) (text : List Char) : Prop :=
  ∀ before c after, text = before ++ c :: after → c ≠ '\n' →
    ∀ x y, Writing.Frames origin before c x y →
      (0 ≤ x ∧ x < r.width.toNat) ∧ 0 ≤ y ∧ y < r.height.toNat

variable {r : Raster} {ink : Color}

theorem length_pixels_run (h : Writing.after? origin.x origin text = some pen)
    (hroom : r.HasRoom origin text) :
    ((Writing.run origin.x origin text).cells.filterMap Point.pixel?).length =
      (Writing.run origin.x origin text).cells.length := by
  rw [List.length_filterMap_eq_countP, List.countP_eq_length]
  intro p hp
  obtain ⟨before, c, after, hsplit, hc, hframes⟩ := Writing.exists_frames_of_mem h hp
  obtain ⟨⟨hx, -⟩, hy, -⟩ := hroom before c after hsplit hc _ _ hframes
  rw [Point.pixel?, if_pos ⟨hx, hy⟩]
  rfl

theorem exists_pixel?_of_mem (h : Writing.after? origin.x origin text = some pen)
    (hroom : r.HasRoom origin text) {cell : Nat × Nat}
    (hcell : cell ∈ (Writing.run origin.x origin text).cells.filterMap Point.pixel?) :
    ∃ c, r.pixel? cell.1 cell.2 = some c := by
  obtain ⟨p, hp, hpixel⟩ := List.mem_filterMap.mp hcell
  obtain ⟨hx, hy⟩ := Point.pixel?_eq_some_iff.mp hpixel
  obtain ⟨before, c, after, hsplit, hc, hframes⟩ := Writing.exists_frames_of_mem h hp
  obtain ⟨⟨-, hright⟩, -, hbottom⟩ := hroom before c after hsplit hc _ _ hframes
  exact r.exists_pixel? (by omega) (by omega)

theorem count_inscribe {text : String} (h : Writing.after? origin.x origin text.toList = some pen)
    (hclear : ∀ c ∈ r.pixels, c.alpha = 0) (hink : ink.alpha ≠ 0)
    (hroom : r.HasRoom origin text.toList) :
    (r.inscribe origin text ink).1.count (·.alpha != 0) =
      ((text.toList.filter (· != '\n')).map fun c => (Glyph.ofChar c).cells.length).sum := by
  have hnone : r.count (·.alpha != 0) = 0 := by
    rw [count, Array.countP_eq_zero]
    intro c hc
    simp [hclear c hc]
  have hall : ∀ cell ∈ (Writing.run origin.x origin text.toList).cells.filterMap Point.pixel?,
      ∃ c, r.pixel? cell.1 cell.2 = some c ∧ (c.alpha != 0) = false := by
    intro cell hcell
    obtain ⟨c, hc⟩ := exists_pixel?_of_mem h hroom hcell
    exact ⟨c, hc, by simp [hclear c (mem_pixels_iff.mpr ⟨_, _, hc⟩)]⟩
  have hvisible : (ink.alpha != 0) = true := bne_iff_ne.mpr hink
  have hcount := count_paint (p := (·.alpha != 0)) hvisible (Writing.nodup_pixels_run h) hall
  rw [hnone, Nat.zero_add, length_pixels_run h hroom, Writing.length_cells_run h] at hcount
  exact hcount

/-- The glyphs of a text that is written to its end are apart, with a free column between two on
one line and a free row between two on different lines. So no pixel is painted twice, and on a
transparent raster with room for the text as many pixels can be seen as its glyphs have set
cells. -/
theorem inscribe_spaced (origin : Point) (text : String)
    (h : (Writing.ofText origin text).overflows = false) :
    (∀ before c between c' after, text.toList = before ++ c :: (between ++ c' :: after) →
      c ≠ '\n' → c' ≠ '\n' →
      (∀ x y, ¬ (Writing.Frames origin before c x y ∧
        Writing.Frames origin (before ++ c :: between) c' x y)) ∧
      ('\n' ∉ between → ∃ column,
        (∀ x y, Writing.Frames origin before c x y → x < column) ∧
        (∀ x y, Writing.Frames origin (before ++ c :: between) c' x y → column < x) ∧
        ∀ p ∈ (Writing.ofText origin text).cells,
          Writing.OnLine origin before p.y.val → p.x.val ≠ column) ∧
      ('\n' ∈ between → ∃ row,
        (∀ x y, Writing.Frames origin before c x y → y < row) ∧
        (∀ x y, Writing.Frames origin (before ++ c :: between) c' x y → row < y) ∧
        ∀ p ∈ (Writing.ofText origin text).cells, p.y.val ≠ row)) ∧
    ((Writing.ofText origin text).cells.filterMap Point.pixel?).Nodup ∧
    ∀ (r : Raster) (ink : Color), (∀ c ∈ r.pixels, c.alpha = 0) → ink.alpha ≠ 0 →
      r.HasRoom origin text.toList →
      (r.inscribe origin text ink).1.count (·.alpha != 0) =
        ((text.toList.filter (· != '\n')).map fun c => (Glyph.ofChar c).cells.length).sum := by
  rw [Writing.ofText, Writing.overflows_run, Option.isNone_eq_false_iff] at h
  obtain ⟨pen, hpen⟩ := Option.isSome_iff_exists.mp h
  refine ⟨?_, Writing.nodup_pixels_run hpen, fun r ink => count_inscribe hpen⟩
  intro before c between c' after hsplit hc hc'
  refine ⟨?_, fun hbetween => ?_, fun hbetween => ?_⟩
  · rintro x y ⟨hframes, hframes'⟩
    exact Writing.not_frames_both hc hframes hframes'
  · exact Writing.exists_free_column hpen hsplit hc hbetween
  · exact Writing.exists_free_row hpen before c c' hbetween

/-- A crab, and a blank and a box on the line below: the row between the lines and the column
between the blank and the box are free, and the cells of the crab and the box can be seen. -/
theorem inscribe_spaced_lines :
    let origin : Point := ⟨.ofNat 0, .ofNat 0⟩
    let text := "🦀\n x"
    (Writing.ofText origin text).overflows = false ∧ (clear 16 23).HasRoom origin text.toList ∧
      ((clear 16 23).inscribe origin text Drawing.white).1.count (·.alpha != 0) = 102 ∧
      (∃ row, (∀ x y, Writing.Frames origin [] '🦀' x y → y < row) ∧
        ∀ x y, Writing.Frames origin ['🦀', '\n', ' '] 'x' x y → row < y) ∧
      ∃ column, (∀ x y, Writing.Frames origin ['🦀', '\n'] ' ' x y → x < column) ∧
        ∀ x y, Writing.Frames origin ['🦀', '\n', ' '] 'x' x y → column < x := by
  intro origin text
  have hover : (Writing.ofText origin text).overflows = false := by decide +kernel
  have hroom : (clear 16 23).HasRoom origin text.toList := by
    intro before c after hsplit hc x y hframes
    have hchars : text.toList = ['🦀', '\n', ' ', 'x'] := by decide
    simp only [hchars, List.cons_eq_append_iff, List.cons.injEq] at hsplit
    change (0 ≤ x ∧ x < 16) ∧ 0 ≤ y ∧ y < 23
    rcases hsplit with ⟨rfl, rfl, -⟩ | ⟨_, rfl, ⟨rfl, rfl, -⟩ | ⟨_, rfl, ⟨rfl, rfl, -⟩ |
      ⟨_, rfl, ⟨rfl, rfl, -⟩ | ⟨_, -, h⟩⟩⟩⟩
    · have : (0 ≤ x ∧ x < 16) ∧ 0 ≤ y ∧ y < 12 := hframes
      omega
    · contradiction
    · have : (0 ≤ x ∧ x < 4) ∧ 13 ≤ y ∧ y < 23 := hframes
      omega
    · have : (5 ≤ x ∧ x < 11) ∧ 13 ≤ y ∧ y < 23 := hframes
      omega
    · simp at h
  obtain ⟨hapart, -, hcount⟩ := inscribe_spaced origin text hover
  obtain ⟨-, -, hrow⟩ := hapart [] '🦀' ['\n', ' '] 'x' [] (by decide) (by decide) (by decide)
  obtain ⟨-, hcolumn, -⟩ := hapart ['🦀', '\n'] ' ' [] 'x' [] (by decide) (by decide) (by decide)
  obtain ⟨row, habove, hbelow, -⟩ := hrow (by decide)
  obtain ⟨column, hleft, hright, -⟩ := hcolumn (by decide)
  refine ⟨hover, hroom, (hcount _ _ ?_ (by decide) hroom).trans (by decide +kernel),
    ⟨row, habove, hbelow⟩, column, hleft, hright⟩
  intro c hc
  rw [Array.eq_of_mem_replicate hc]
  rfl

end Raster

end IconPainter
