import Mathlib.Algebra.Ring.Int.Parity
import Mathlib.Data.Nat.Factorization.Basic
import Mathlib.Tactic.LinearCombination
import IconPainter.Proofs.Binary64.Rounding
import IconPainter.Proofs.Raster.Pixels
import IconPainter.Raster.Ellipse

/-! # The ellipse in integers

Whether a pixel is painted is decided by six rounded operations. Over the
integers it is one comparison of squares, in which the two sides are never equal
unless the box has neither columns nor rows: a power of two in one extent would
have to divide an odd distance. So the two sides differ by one at least, and in
a box that is not too large the roundings together do not reach as far.
-/

namespace IconPainter

variable {b : Box} {x y : Int}

namespace Box

/-- How many columns of pixels a box holds; not positive if it holds none. -/
def columns (b : Box) : Int := b.right.val - b.left.val + 1

def rows (b : Box) : Int := b.bottom.val - b.top.val + 1

/-- The distance of the centre of column `x` from the middle of the box, in half pixels. -/
def across (b : Box) (x : Int) : Int := 2 * x - b.left.val - b.right.val

def down (b : Box) (y : Int) : Int := 2 * y - b.top.val - b.bottom.val

/-- The square of the distance of a pixel's centre from the middle, each direction
measured in its own half extent, times the square of `columns * rows`. -/
def spread (b : Box) (x y : Int) : Int :=
  b.across x ^ 2 * b.rows ^ 2 + b.down y ^ 2 * b.columns ^ 2

/-- The centre of the pixel in column `x` and row `y` lies in or on the ellipse. -/
def Encloses (b : Box) (x y : Int) : Prop :=
  b.spread x y ≤ b.columns ^ 2 * b.rows ^ 2

instance (b : Box) (x y : Int) : Decidable (b.Encloses x y) :=
  inferInstanceAs (Decidable (_ ≤ _))

def transpose (b : Box) : Box := ⟨b.top, b.left, b.bottom, b.right⟩

/-- The box holds pixels, this one among them, and the pixel's centre lies in the ellipse as
binary64 has it. -/
def holdsPixel (b : Box) (x y : Nat) : Bool :=
  !b.isEmpty && (b.left.val ≤ x && x ≤ b.right.val) && (b.top.val ≤ y && y ≤ b.bottom.val) &&
    b.holdsCentre x y

theorem holdsPixel_iff {x y : Nat} : b.holdsPixel x y ↔
    b.isEmpty = false ∧ (b.left.val ≤ x ∧ x ≤ b.right.val) ∧
      (b.top.val ≤ y ∧ y ≤ b.bottom.val) ∧ b.holdsCentre x y := by
  simp only [holdsPixel, Bool.and_eq_true, Bool.not_eq_true', decide_eq_true_eq, and_assoc]

theorem mem_ellipse_iff_holdsPixel {width height x y : Nat} (hx : x < width) (hy : y < height) :
    (x, y) ∈ b.ellipse width height ↔ b.holdsPixel x y := by
  rw [mem_ellipse, holdsPixel_iff]
  constructor
  · rintro ⟨hb, -, hbox⟩
    exact ⟨hb, hbox⟩
  · rintro ⟨hb, hbox⟩
    exact ⟨hb, ⟨hx, hy⟩, hbox⟩

theorem spread_transpose (b : Box) (x y : Int) : b.transpose.spread y x = b.spread x y :=
  Int.add_comm _ _

end Box

/-! ### No centre lies on the ellipse -/

theorem pow_dvd_of_sq_add_sq {i j k : Int} (n : Nat) (h : i ^ 2 + j ^ 2 = k ^ 2)
    (hk : 2 ^ n ∣ k) : 2 ^ n ∣ i ∧ 2 ^ n ∣ j := by
  induction n generalizing i j k with
  | zero => simp
  | succ n ih =>
    have hfour : i ^ 2 % 4 = i % 2 ∧ j ^ 2 % 4 = j % 2 := by
      constructor
      · rcases Int.even_or_odd' i with ⟨m, rfl | rfl⟩ <;> ring_nf <;> omega
      · rcases Int.even_or_odd' j with ⟨m, rfl | rfl⟩ <;> ring_nf <;> omega
    obtain ⟨c, rfl⟩ := hk
    have hc : (2 ^ (n + 1) * c) ^ 2 = 4 * (2 ^ n * c) ^ 2 := by ring
    obtain ⟨i, rfl⟩ : (2 : Int) ∣ i := by omega
    obtain ⟨j, rfl⟩ : (2 : Int) ∣ j := by omega
    have hhalf : i ^ 2 + j ^ 2 = (2 ^ n * c) ^ 2 := by
      refine mul_left_cancel₀ (four_ne_zero (α := Int)) ?_
      rw [← hc, ← h]
      ring
    obtain ⟨hi, hj⟩ := ih hhalf (Int.dvd_mul_right _ _)
    rw [pow_succ']
    exact ⟨mul_dvd_mul_left 2 hi, mul_dvd_mul_left 2 hj⟩

namespace Box

theorem even_across_iff : Even (b.across x) ↔ Odd b.columns := by
  rw [Int.even_iff, Int.odd_iff]
  simp only [columns, across]
  omega

theorem even_down_iff : Even (b.down y) ↔ Odd b.rows :=
  even_across_iff (b := b.transpose)

/-- A centre on the ellipse would have to be at an even distance from the middle, where the
number of columns is even; but there all distances are odd. -/
theorem odd_columns (hrows : b.rows ≠ 0) (h : b.spread x y = b.columns ^ 2 * b.rows ^ 2) :
    Odd b.columns := by
  by_contra heven
  rw [Int.not_odd_iff_even] at heven
  obtain ⟨c, hc⟩ := heven
  obtain ⟨n, m, hm, hrows_eq⟩ := Nat.exists_eq_two_pow_mul_odd (Int.natAbs_ne_zero.mpr hrows)
  have habs : |b.rows| = 2 ^ n * m := by
    rw [Int.abs_eq_natAbs, hrows_eq]
    push_cast
    rfl
  have hsq : (b.across x * |b.rows|) ^ 2 + (b.down y * b.columns) ^ 2 =
      (b.columns * |b.rows|) ^ 2 := by
    rw [mul_pow, mul_pow, mul_pow, sq_abs]
    exact h
  have hdvd : (2 : Int) ^ (n + 1) ∣ b.columns * |b.rows| :=
    ⟨c * m, by rw [habs, hc]; ring⟩
  obtain ⟨k, hk⟩ := (pow_dvd_of_sq_add_sq (n + 1) hsq hdvd).1
  have hacross : b.across x * m = 2 * k := by
    refine mul_left_cancel₀ (pow_ne_zero n (two_ne_zero (α := Int))) ?_
    rw [habs] at hk
    linear_combination hk
  have hodd : Odd (b.across x * m) := by
    refine Odd.mul ?_ (by exact_mod_cast hm)
    rw [← Int.not_even_iff_odd, even_across_iff, Int.not_odd_iff_even]
    exact ⟨c, hc⟩
  rw [hacross] at hodd
  exact Int.not_even_iff_odd.mpr hodd (even_two_mul k)

theorem columns_eq_zero (hrows : b.rows = 0) (h : b.spread x y = b.columns ^ 2 * b.rows ^ 2) :
    b.columns = 0 := by
  by_contra hc
  have hdown : b.down y = 0 := by simpa [spread, hrows, hc] using h
  have hodd : Odd b.rows := even_down_iff.mp (hdown ▸ Even.zero)
  rw [hrows] at hodd
  exact Int.not_odd_zero hodd

theorem spread_eq_iff (b : Box) (x y : Int) :
    b.spread x y = b.columns ^ 2 * b.rows ^ 2 ↔ b.columns = 0 ∧ b.rows = 0 := by
  constructor
  · intro h
    have h' : b.transpose.spread y x = b.transpose.columns ^ 2 * b.transpose.rows ^ 2 := by
      rw [spread_transpose, h]
      exact mul_comm _ _
    by_cases hr : b.rows = 0
    · exact ⟨columns_eq_zero hr h, hr⟩
    by_cases hc : b.columns = 0
    · exact absurd (columns_eq_zero (b := b.transpose) hc h') hr
    -- With odd extents all distances are even, so the left side is even and the right odd.
    have hcolumns : Odd b.columns := odd_columns hr h
    have hrows : Odd b.rows := odd_columns (b := b.transpose) hc h'
    have heven : Even (b.spread x y) :=
      (((even_across_iff.mpr hcolumns).pow_of_ne_zero two_ne_zero).mul_right _).add
        (((even_down_iff.mpr hrows).pow_of_ne_zero two_ne_zero).mul_right _)
    rw [h] at heven
    exact (Int.not_even_iff_odd.mpr (hcolumns.pow.mul hrows.pow) heven).elim
  · rintro ⟨hc, hr⟩
    simp [spread, hc, hr]

theorem Encloses.mem (h : b.Encloses x y) (hcolumns : 0 < b.columns) (hrows : 0 < b.rows) :
    (b.left.val ≤ x ∧ x ≤ b.right.val) ∧ b.top.val ≤ y ∧ y ≤ b.bottom.val := by
  have hacross : |b.across x| ≤ b.columns := by
    refine abs_le_of_sq_le_sq ?_ hcolumns.le
    refine le_of_mul_le_mul_right ?_ (pow_pos hrows 2)
    exact (le_add_of_nonneg_right (by positivity)).trans h
  have hdown : |b.down y| ≤ b.rows := by
    refine abs_le_of_sq_le_sq ?_ hrows.le
    refine le_of_mul_le_mul_right ?_ (pow_pos hcolumns 2)
    rw [mul_comm (b.rows ^ 2)]
    exact (le_add_of_nonneg_left (by positivity)).trans h
  rw [abs_le] at hacross hdown
  simp only [columns, rows, across, down] at hacross hdown
  omega

theorem isEmpty_eq_false_iff : b.isEmpty = false ↔ 0 < b.columns ∧ 0 < b.rows := by
  simp only [isEmpty, columns, rows, Bool.or_eq_false_iff, decide_eq_false_iff_not]
  omega

end Box

/-! ### Six roundings -/

open Binary64

theorem Coord.abs_val_le (c : Coord) : |c.val| ≤ 2 ^ 32 := by
  have := c.min_le
  have := c.le_max
  rw [abs_le]
  omega

section
variable {first last n : Int}

theorem offCentre_eq (hfirst : |first| ≤ 2 ^ 32) (hlast : |last| ≤ 2 ^ 32) (hn : |n| ≤ 2 ^ 32) :
    offCentre first last n =
      Binary64.round ((2 * n - first - last : Int) / (last - first + 1 : Int)) := by
  rw [abs_le] at hfirst hlast hn
  have hmiddle : div (first + last + 1 : Int) 2 = (first + last + 1 : Int) / 2 :=
    round_half (abs_lt.mpr (by omega))
  have hradius : div (last - first + 1 : Int) 2 = (last - first + 1 : Int) / 2 :=
    round_half (abs_lt.mpr (by omega))
  have hcentre : add n (1 / 2) = (2 * n + 1 : Int) / 2 := by
    rw [← round_half (m := 2 * n + 1) (abs_lt.mpr (by omega)), add]
    congr 1
    push_cast
    ring
  have hdistance : sub ((2 * n + 1 : Int) / 2) ((first + last + 1 : Int) / 2) =
      (2 * n - first - last : Int) / 2 := by
    rw [← round_half (m := 2 * n - first - last) (abs_lt.mpr (by omega)), sub]
    congr 1
    push_cast
    ring
  simp only [offCentre, hmiddle, hradius, hcentre, hdistance]
  rw [div, div_div_div_cancel_right₀ two_ne_zero]

theorem zero_or_le_abs_div {i j : Int} (hj : 0 < j) (hle : j ≤ 2 ^ 34) :
    (i / j : ℚ) = 0 ∨ (2 : ℚ) ^ (-34 : Int) ≤ |(i / j : ℚ)| := by
  by_cases hi : i = 0
  · exact .inl (by rw [hi, Int.cast_zero, zero_div])
  · have hj' : (0 : ℚ) < j := by exact_mod_cast hj
    have hle' : (j : ℚ) ≤ 2 ^ 34 := by exact_mod_cast hle
    have hone : (1 : ℚ) ≤ |(i : ℚ)| := by exact_mod_cast Int.one_le_abs hi
    refine .inr ?_
    rw [abs_div, abs_of_pos hj', le_div_iff₀ hj', zpow_neg, inv_mul_le_iff₀ (by positivity)]
    norm_num at hle' ⊢
    linarith

theorem near_offCentreSq (hfirst : |first| ≤ 2 ^ 32) (hlast : |last| ≤ 2 ^ 32)
    (hn : |n| ≤ 2 ^ 32) (hextent : 0 < last - first + 1) :
    Near 3 (((2 * n - first - last : Int) / (last - first + 1 : Int) : ℚ) ^ 2)
        (offCentreSq first last n) ∧
      (offCentreSq first last n = 0 ∨ (2 : ℚ) ^ (-71 : Int) ≤ offCentreSq first last n) := by
  set t : ℚ := (2 * n - first - last : Int) / (last - first + 1 : Int) with ht
  have hcoarse : t = 0 ∨ (2 : ℚ) ^ (-34 : Int) ≤ |t| := by
    refine zero_or_le_abs_div hextent ?_
    rw [abs_le] at hfirst hlast
    omega
  have hnormal : (2 : ℚ) ^ (-1022 : Int) ≤ 2 ^ (-34 : Int) :=
    zpow_le_zpow_right₀ one_le_two (by omega)
  have hsquare : t ^ 2 = 0 ∨ (2 : ℚ) ^ (-68 : Int) ≤ t ^ 2 := by
    refine hcoarse.imp (fun h => by rw [h]; norm_num) fun h => ?_
    calc (2 : ℚ) ^ (-68 : Int) = (2 ^ (-34 : Int)) ^ 2 := by norm_num
      _ ≤ |t| ^ 2 := by gcongr
      _ = t ^ 2 := sq_abs t
  have hquotient : Near 2 (t ^ 2) (Binary64.round t ^ 2) := by
    rw [← sq_abs t, ← sq_abs (Binary64.round t)]
    exact (near_round (hcoarse.imp_right hnormal.trans)).sq (abs_nonneg t)
  have hproduct : Near 1 (Binary64.round t ^ 2) (offCentreSq first last n) := by
    rw [offCentreSq, offCentre_eq hfirst hlast hn, ← ht, mul, ← pow_two]
    refine near_round_of_nonneg (sq_nonneg _) ((hquotient.zero_or_le hsquare).imp_right ?_)
    exact (zpow_le_zpow_right₀ one_le_two (by norm_num)).trans
  have hthree := hquotient.trans hproduct
  exact ⟨hthree, hthree.zero_or_le hsquare⟩

end

namespace Box

/-- What is compared with one is four roundings away from the quotient of the two sides. -/
theorem near_quotient (hcolumns : 0 < b.columns) (hrows : 0 < b.rows)
    (hx : |x| ≤ 2 ^ 32) (hy : |y| ≤ 2 ^ 32) :
    Near 4 (b.spread x y / (b.columns ^ 2 * b.rows ^ 2 : Int))
      (add (offCentreSq b.left.val b.right.val x) (offCentreSq b.top.val b.bottom.val y)) := by
  obtain ⟨hacross, hacross'⟩ :=
    near_offCentreSq b.left.abs_val_le b.right.abs_val_le hx hcolumns
  obtain ⟨hdown, hdown'⟩ := near_offCentreSq b.top.abs_val_le b.bottom.abs_val_le hy hrows
  have hsum : (b.spread x y / (b.columns ^ 2 * b.rows ^ 2 : Int) : ℚ) =
      (b.across x / b.columns) ^ 2 + (b.down y / b.rows) ^ 2 := by
    have hc : (b.columns : ℚ) ≠ 0 := by exact_mod_cast hcolumns.ne'
    have hr : (b.rows : ℚ) ≠ 0 := by exact_mod_cast hrows.ne'
    rw [spread]
    push_cast
    field_simp
  have hacross₀ := hacross.nonneg (sq_nonneg _)
  have hdown₀ := hdown.nonneg (sq_nonneg _)
  have hnormal : (2 : ℚ) ^ (-1022 : Int) ≤ 2 ^ (-71 : Int) :=
    zpow_le_zpow_right₀ one_le_two (by omega)
  rw [hsum]
  refine (hacross.add hdown).trans (near_round_of_nonneg (add_nonneg hacross₀ hdown₀) ?_)
  rcases hacross' with hacross' | hacross'
  · rw [hacross', zero_add]
    exact hdown'.imp_right hnormal.trans
  · exact .inr (hnormal.trans (hacross'.trans (le_add_of_nonneg_right hdown₀)))

/-- In a box that is not too large, the sum of the rounded squares is less than one at the
enclosed pixels, and more at the others. -/
theorem quotient_separated (hcolumns : 0 < b.columns) (hrows : 0 < b.rows)
    (harea : b.columns * b.rows ≤ 2 ^ 25) (hx : |x| ≤ 2 ^ 32) (hy : |y| ≤ 2 ^ 32) :
    (b.Encloses x y →
        add (offCentreSq b.left.val b.right.val x) (offCentreSq b.top.val b.bottom.val y) < 1) ∧
      (¬ b.Encloses x y →
        1 < add (offCentreSq b.left.val b.right.val x) (offCentreSq b.top.val b.bottom.val y)) := by
  obtain ⟨hlow, hhigh⟩ := near_quotient hcolumns hrows hx hy
  set total := add (offCentreSq b.left.val b.right.val x) (offCentreSq b.top.val b.bottom.val y)
  set square : Int := b.columns ^ 2 * b.rows ^ 2 with hsquare
  have hpos : (0 : ℚ) < square := by exact_mod_cast (by positivity : 0 < square)
  have hgap : (2 : ℚ) ^ (-50 : Int) * square ≤ 1 := by
    have hle : square ≤ 2 ^ 50 := by
      rw [hsquare, ← mul_pow]
      calc (b.columns * b.rows) ^ 2 ≤ (2 ^ 25) ^ 2 := by gcongr
        _ = 2 ^ 50 := by norm_num
    have hle' : (square : ℚ) ≤ 2 ^ 50 := by exact_mod_cast hle
    rw [zpow_neg, inv_mul_le_iff₀ (by positivity)]
    norm_num at hle' ⊢
    exact hle'
  constructor
  · intro h
    have hne : b.spread x y ≠ square := by
      rw [Ne, spread_eq_iff]
      omega
    have hle : b.spread x y + 1 ≤ square := Int.add_one_le_iff.mpr (lt_of_le_of_ne h hne)
    have hle' : (b.spread x y : ℚ) + 1 ≤ square := by exact_mod_cast hle
    have hquotient : (b.spread x y / square : ℚ) ≤ 1 - 2 ^ (-50 : Int) := by
      rw [div_le_iff₀ hpos, sub_mul, one_mul]
      linarith
    calc total ≤ b.spread x y / square * (1 + 2 ^ (-53 : Int)) ^ 4 := hhigh
      _ ≤ (1 - 2 ^ (-50 : Int)) * (1 + 2 ^ (-53 : Int)) ^ 4 := by gcongr
      _ < 1 := by norm_num
  · intro h
    have hle : square + 1 ≤ b.spread x y := Int.add_one_le_iff.mpr (not_le.mp h)
    have hle' : (square : ℚ) + 1 ≤ b.spread x y := by exact_mod_cast hle
    have hquotient : (1 + 2 ^ (-50 : Int) : ℚ) ≤ b.spread x y / square := by
      rw [le_div_iff₀ hpos, add_mul, one_mul]
      linarith
    have hlow_pos := Near.low_pos
    calc (1 : ℚ) < (1 + 2 ^ (-50 : Int)) * (1 - 2 ^ (-53 : Int)) ^ 4 := by norm_num
      _ ≤ b.spread x y / square * (1 - 2 ^ (-53 : Int)) ^ 4 := by gcongr
      _ ≤ total := hlow

theorem mem_ellipse_iff_encloses {width height x y : Nat} (hb : b.isEmpty = false)
    (harea : b.columns * b.rows ≤ 2 ^ 25) (hx : x < width) (hwidth : width ≤ 2 ^ 32)
    (hy : y < height) (hheight : height ≤ 2 ^ 32) :
    (x, y) ∈ b.ellipse width height ↔ b.Encloses x y := by
  obtain ⟨hcolumns, hrows⟩ := isEmpty_eq_false_iff.mp hb
  obtain ⟨hinside, houtside⟩ := quotient_separated (x := x) (y := y) hcolumns hrows harea
    (abs_le.mpr (by omega)) (abs_le.mpr (by omega))
  rw [mem_ellipse]
  constructor
  · rintro ⟨-, -, -, -, hholds⟩
    by_contra h
    exact absurd (of_decide_eq_true hholds) (not_le.mpr (houtside h))
  · intro h
    obtain ⟨hin, hin'⟩ := h.mem hcolumns hrows
    exact ⟨hb, ⟨hx, hy⟩, hin, hin', decide_eq_true (hinside h).le⟩

end Box

/-- In a box that is not too large, the pixels of an ellipse are the ones that the comparison of
squares encloses. They are the same whether the comparison is strict or not, over the integers
and in binary64: its two sides differ, but for a box without columns and rows. -/
theorem Raster.paintEllipse_exact :
    (∀ (r : Raster) (b : Box) (ink : Color) (x y : Nat),
      b.isEmpty = false → b.columns * b.rows ≤ 2 ^ 25 →
      x < r.width.toNat → y < r.height.toNat →
      (r.paintEllipse b ink).pixel? x y =
          (if b.Encloses x y then some ink else r.pixel? x y) ∧
        add (offCentreSq b.left.val b.right.val x) (offCentreSq b.top.val b.bottom.val y) ≠ 1) ∧
    ∀ (b : Box) (x y : Int),
      b.spread x y = b.columns ^ 2 * b.rows ^ 2 ↔ b.columns = 0 ∧ b.rows = 0 := by
  refine ⟨fun r b ink x y hb harea hx hy => ⟨?_, ?_⟩, Box.spread_eq_iff⟩
  · obtain ⟨c, hc⟩ := r.exists_pixel? hx hy
    rw [Raster.paintEllipse, Raster.pixel?_paint, hc, Option.map_some]
    simp only [Box.mem_ellipse_iff_encloses hb harea hx r.width.toNat_lt.le hy
      r.height.toNat_lt.le]
  · obtain ⟨hcolumns, hrows⟩ := Box.isEmpty_eq_false_iff.mp hb
    have hx' := hx.trans r.width.toNat_lt
    have hy' := hy.trans r.height.toNat_lt
    obtain ⟨hinside, houtside⟩ := Box.quotient_separated (x := x) (y := y) hcolumns hrows harea
      (abs_le.mpr (by omega)) (abs_le.mpr (by omega))
    by_cases h : b.Encloses x y
    · exact (hinside h).ne
    · exact (houtside h).ne'

/-- A disc of four by four pixels has all pixels of its box but the corners. -/
theorem Raster.paintEllipse_exact_disc :
    let disc : Box := ⟨.ofNat 0, .ofNat 0, .ofNat 3, .ofNat 3⟩
    let ink : Color := ⟨255, 0, 0, 255⟩
    ((Raster.clear 4 4).paintEllipse disc ink).pixel? 1 0 = some ink ∧
      ((Raster.clear 4 4).paintEllipse disc ink).pixel? 0 0 = some Color.clear := by
  intro disc ink
  have hat (x y : Nat) (hx : x < 4) (hy : y < 4) := (Raster.paintEllipse_exact.1
    (Raster.clear 4 4) disc ink x y (by decide) (by decide) hx hy).1
  exact ⟨(hat 1 0 (by decide) (by decide)).trans (by decide),
    (hat 0 0 (by decide) (by decide)).trans (by decide)⟩

/-- In a box that ends where it would begin, the two sides are the same, so the comparison decides
otherwise if it is strict. No pixel is painted there. -/
theorem Raster.paintEllipse_exact_collapsed :
    let collapsed : Box := ⟨.ofNat 5, .ofNat 5, .ofNat 4, .ofNat 4⟩
    (collapsed.columns = 0 ∧ collapsed.rows = 0) ∧
      collapsed.spread 0 0 = collapsed.columns ^ 2 * collapsed.rows ^ 2 ∧
      collapsed.Encloses 0 0 ∧
      ¬ collapsed.spread 0 0 < collapsed.columns ^ 2 * collapsed.rows ^ 2 ∧
      ((Raster.clear 1 1).paintEllipse collapsed ⟨255, 0, 0, 255⟩).pixel? 0 0 =
        some Color.clear := by
  decide

end IconPainter
