import IconPainter.Drawing
import IconPainter.Proofs.Raster.Pixels

/-! # Marks as layers

Marks are tried on a raster one after the other; one that has a fault leaves
what it had painted by then. Which pixels a mark covers is found out by trying
it on rasters, and it turns out that one try tells as much as all of them: what
is on a raster has no say in what a mark does. So of all marks that cover a
pixel only the last one shows.
-/

namespace IconPainter

variable {m : Mark} {marks : List Mark} {width height : UInt32} {x y : Nat}

namespace Raster

@[simp] theorem width_draw (r : Raster) (m : Mark) : (r.draw m).width = r.width :=
  r.width_paint _ _

@[simp] theorem height_draw (r : Raster) (m : Mark) : (r.draw m).height = r.height :=
  r.height_paint _ _

@[simp] theorem attempt_fst (r : Raster) (m : Mark) : (r.attempt m).1 = r.draw m := by
  cases m <;> rfl

@[simp] theorem attempt_snd (r : Raster) (m : Mark) : (r.attempt m).2 = m.crash? := by
  cases m <;> rfl

theorem attemptAll_cons (r : Raster) (m : Mark) (marks : List Mark) :
    r.attemptAll (m :: marks) =
      (((r.draw m).attemptAll marks).1, m.crash? :: ((r.draw m).attemptAll marks).2) := by
  rw [← attempt_fst, ← attempt_snd r]
  rfl

theorem endings_attemptAll (r : Raster) (marks : List Mark) :
    (r.attemptAll marks).2 = marks.map Mark.crash? := by
  induction marks generalizing r with
  | nil => rfl
  | cons m marks ih => rw [attemptAll_cons, ih, List.map_cons]

theorem size_attemptAll (r : Raster) (marks : List Mark) :
    (r.attemptAll marks).1.width = r.width ∧ (r.attemptAll marks).1.height = r.height := by
  induction marks generalizing r with
  | nil => exact ⟨rfl, rfl⟩
  | cons m marks ih =>
    obtain ⟨hwidth, hheight⟩ := ih (r.draw m)
    rw [attemptAll_cons]
    exact ⟨hwidth.trans (r.width_draw m), hheight.trans (r.height_draw m)⟩

theorem drawAll_eq_ok (r : Raster) (h : ∀ m ∈ marks, m.crash? = none) :
    r.drawAll marks = .ok (r.attemptAll marks).1 := by
  induction marks generalizing r with
  | nil => rfl
  | cons m marks ih =>
    rw [drawAll, h m List.mem_cons_self, attemptAll_cons]
    exact ih (r.draw m) fun m' h' => h m' (List.mem_cons_of_mem _ h')

end Raster

namespace Mark

/-- On some raster of the given size, trying the mark changes the pixel in column `x` and
row `y`. -/
def Covers (m : Mark) (width height : UInt32) (x y : Nat) : Prop :=
  ∃ r : Raster, r.width = width ∧ r.height = height ∧ (r.attempt m).1.pixel? x y ≠ r.pixel? x y

/-- A raster whose pixel has not the mark's ink tells whether the mark covers the pixel. -/
theorem covers_iff : m.Covers width height x y ↔
    (x, y) ∈ m.cells width.toNat height.toNat ∧ x < width.toNat ∧ y < height.toNat := by
  constructor
  · rintro ⟨r, rfl, rfl, hchange⟩
    rw [Raster.attempt_fst, Raster.draw, Raster.pixel?_paint] at hchange
    split at hchange
    · rename_i hmem
      refine ⟨hmem, Decidable.not_not.mp fun hout => hchange ?_⟩
      rw [r.pixel?_eq_none hout, Option.map_none]
    · exact (hchange rfl).elim
  · rintro ⟨hmem, hx, hy⟩
    obtain ⟨c, hc⟩ : ∃ c, c ≠ m.ink :=
      if h : m.ink = Color.clear then ⟨⟨0, 0, 0, 1⟩, by rw [h]; decide⟩
      else ⟨Color.clear, Ne.symm h⟩
    refine ⟨(Raster.clear width height).set x y c, Raster.width_set .., Raster.height_set .., ?_⟩
    have hbefore : ((Raster.clear width height).set x y c).pixel? x y = some c := by
      rw [Raster.pixel?_set, if_pos ⟨rfl, rfl⟩, Raster.pixel?_clear hx hy, Option.map_some]
    rw [Raster.attempt_fst, Raster.draw, Raster.pixel?_paint, Raster.width_set, Raster.height_set,
      if_pos (by exact hmem), hbefore, Option.map_some]
    exact fun h => hc (Option.some.inj h).symm

instance (m : Mark) (width height : UInt32) (x y : Nat) : Decidable (m.Covers width height x y) :=
  decidable_of_iff' _ covers_iff

/-- The last of the marks that covers a pixel. -/
def lastCovering (marks : List Mark) (width height : UInt32) (x y : Nat) : Option Mark :=
  marks.reverse.find? fun m => m.Covers width height x y

theorem lastCovering_append (marks marks' : List Mark) :
    lastCovering (marks ++ marks') width height x y =
      (lastCovering marks' width height x y).or (lastCovering marks width height x y) := by
  rw [lastCovering, List.reverse_append, List.find?_append]
  rfl

theorem lastCovering_singleton : lastCovering [m] width height x y =
    if m.Covers width height x y then some m else none := by
  rw [lastCovering, List.reverse_singleton, List.find?_singleton]
  simp only [decide_eq_true_eq]

theorem covers_of_lastCovering (h : lastCovering marks width height x y = some m) :
    m ∈ marks ∧ m.Covers width height x y := by
  unfold lastCovering at h
  exact ⟨List.mem_reverse.mp (List.mem_of_find?_eq_some h), by simpa using List.find?_some h⟩

theorem lastCovering_eq_none_iff : lastCovering marks width height x y = none ↔
    ∀ m ∈ marks, ¬ m.Covers width height x y := by
  simp only [lastCovering, List.find?_eq_none, List.mem_reverse, decide_eq_true_eq]

end Mark

namespace Raster

theorem pixel?_draw (r : Raster) (m : Mark) (x y : Nat) :
    (r.draw m).pixel? x y =
      if m.Covers r.width r.height x y then some m.ink else r.pixel? x y := by
  rw [draw, pixel?_paint]
  simp only [Mark.covers_iff]
  by_cases hin : x < r.width.toNat ∧ y < r.height.toNat
  · obtain ⟨c, hc⟩ := r.exists_pixel? hin.1 hin.2
    simp [hin, hc]
  · simp [hin, r.pixel?_eq_none hin]

/-- A pixel shows the last mark that covers it. -/
theorem pixel?_attemptAll (r : Raster) (marks : List Mark) (x y : Nat) :
    (r.attemptAll marks).1.pixel? x y =
      ((Mark.lastCovering marks r.width r.height x y).map Mark.ink).or (r.pixel? x y) := by
  induction marks generalizing r with
  | nil => rfl
  | cons m marks ih =>
    rw [attemptAll_cons, ih, pixel?_draw, width_draw, height_draw,
      ← List.singleton_append, Mark.lastCovering_append, Mark.lastCovering_singleton, Option.map_or,
      Option.or_assoc]
    by_cases h : m.Covers r.width r.height x y
    · rw [if_pos h, if_pos h, Option.map_some, Option.some_or]
    · rw [if_neg h, if_neg h, Option.map_none, Option.none_or]

/-- Marks that are tried on a raster never change its size; how each one ends and which pixels
it covers is the same on all rasters of a size; and afterwards each pixel has the ink of the last
mark that covers it, or else what it had. -/
theorem attemptAll_layers (marks : List Mark) (r : Raster) :
    ((r.attemptAll marks).1.width = r.width ∧ (r.attemptAll marks).1.height = r.height) ∧
    (∀ r' : Raster, (r.attemptAll marks).2 = marks.map fun m => (r'.attempt m).2) ∧
    (∀ (m : Mark) (r' : Raster) (x y : Nat), (r'.attempt m).1.pixel? x y =
      if m.Covers r'.width r'.height x y then some m.ink else r'.pixel? x y) ∧
    ∀ x y : Nat, (r.attemptAll marks).1.pixel? x y =
      ((Mark.lastCovering marks r.width r.height x y).map Mark.ink).or (r.pixel? x y) := by
  refine ⟨r.size_attemptAll marks, fun r' => ?_, fun m r' x y => ?_, r.pixel?_attemptAll marks⟩
  · simp only [attempt_snd]
    exact r.endings_attemptAll marks
  · rw [attempt_fst]
    exact r'.pixel?_draw m x y

end Raster

end IconPainter
