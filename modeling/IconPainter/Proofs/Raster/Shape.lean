import IconPainter.Proofs.Binary64.Order
import IconPainter.Proofs.Raster.Ellipse
import IconPainter.Proofs.Raster.Layers

/-! # The shape of an ellipse

The binary64 test sees nothing of a pixel but how far its column and its row are from
the middle of the box, as fractions of the box's extents, and of these only the sizes.
Since rounding keeps the order, a pixel nearer to the middle in both directions is held
if one farther out is, however large the box is and however coarse its fractions are.
So the ellipse has no holes, is the same on all four sides, and is carried along with
the box.
-/

namespace IconPainter

open Binary64

/-! ### One direction -/

section
variable {first last n first' last' n' : Int}

theorem offCentreSq_eq (hfirst : |first| ≤ 2 ^ 32) (hlast : |last| ≤ 2 ^ 32)
    (hn : |n| ≤ 2 ^ 32) : offCentreSq first last n =
      Binary64.round (Binary64.round
        |((2 * n - first - last : Int) / (last - first + 1 : Int) : ℚ)| ^ 2) := by
  rw [offCentreSq, offCentre_eq hfirst hlast hn, mul, ← abs_round, sq_abs, pow_two]

theorem offCentreSq_nonneg (hfirst : |first| ≤ 2 ^ 32) (hlast : |last| ≤ 2 ^ 32)
    (hn : |n| ≤ 2 ^ 32) : 0 ≤ offCentreSq first last n := by
  rw [offCentreSq_eq hfirst hlast hn]
  exact round_nonneg (sq_nonneg _)

theorem offCentreSq_le (hfirst : |first| ≤ 2 ^ 32) (hlast : |last| ≤ 2 ^ 32)
    (hn : |n| ≤ 2 ^ 32) (hn' : |n'| ≤ 2 ^ 32)
    (h : |2 * n' - first - last| ≤ |2 * n - first - last|) :
    offCentreSq first last n' ≤ offCentreSq first last n := by
  rw [offCentreSq_eq hfirst hlast hn, offCentreSq_eq hfirst hlast hn']
  have hfraction : |((2 * n' - first - last : Int) / (last - first + 1 : Int) : ℚ)| ≤
      |((2 * n - first - last : Int) / (last - first + 1 : Int) : ℚ)| := by
    rw [abs_div, abs_div]
    have h' : |((2 * n' - first - last : Int) : ℚ)| ≤ |((2 * n - first - last : Int) : ℚ)| := by
      exact_mod_cast h
    gcongr
  have hquotient := round_le_round (abs_nonneg _) hfraction
  have hnonneg := round_nonneg (abs_nonneg
    ((2 * n' - first - last : Int) / (last - first + 1 : Int) : ℚ))
  apply round_le_round (sq_nonneg _)
  gcongr

theorem offCentreSq_le_half (hfirst : |first| ≤ 2 ^ 32) (hlast : |last| ≤ 2 ^ 32)
    (hn : |n| ≤ 2 ^ 32) (hextent : 0 < last - first + 1)
    (h : 2 * |2 * n - first - last| ≤ last - first + 1) :
    offCentreSq first last n ≤ 1 / 2 := by
  have hhalf : Binary64.round (1 / 2 : ℚ) = 1 / 2 := by
    simpa using round_half (m := 1) (by norm_num)
  have hfraction : |((2 * n - first - last : Int) / (last - first + 1 : Int) : ℚ)| ≤ 1 / 2 := by
    have hpos : (0 : ℚ) < (last - first + 1 : Int) := by exact_mod_cast hextent
    have h' : 2 * |((2 * n - first - last : Int) : ℚ)| ≤ (last - first + 1 : Int) := by
      exact_mod_cast h
    rw [abs_div, abs_of_pos hpos, div_le_iff₀ hpos]
    linarith
  have hquotient := round_le_round (abs_nonneg _) hfraction
  have hnonneg := round_nonneg (abs_nonneg
    ((2 * n - first - last : Int) / (last - first + 1 : Int) : ℚ))
  rw [hhalf] at hquotient
  rw [offCentreSq_eq hfirst hlast hn, ← hhalf]
  apply round_le_round (sq_nonneg _)
  nlinarith

theorem offCentreSq_congr (hfirst : |first| ≤ 2 ^ 32) (hlast : |last| ≤ 2 ^ 32)
    (hn : |n| ≤ 2 ^ 32) (hfirst' : |first'| ≤ 2 ^ 32) (hlast' : |last'| ≤ 2 ^ 32)
    (hn' : |n'| ≤ 2 ^ 32) (hdistance : 2 * n' - first' - last' = 2 * n - first - last)
    (hextent : last' - first' + 1 = last - first + 1) :
    offCentreSq first' last' n' = offCentreSq first last n := by
  rw [offCentreSq_eq hfirst hlast hn, offCentreSq_eq hfirst' hlast' hn', hdistance, hextent]

end

/-! ### Both directions -/

variable {b b' : Box} {ink ink' : Color} {width height width' height' : UInt32} {i j : Int}

namespace Box
variable {x y x' y' : Int}

def distanceSq (b : Box) (x y : Int) : Int := b.across x ^ 2 + b.down y ^ 2

/-- The box `i` columns to the right and `j` rows down, if its edges have coordinates. -/
def shift? (b : Box) (i j : Int) : Option Box := do
  let left ← Coord.ofInt? (b.left.val + i)
  let top ← Coord.ofInt? (b.top.val + j)
  let right ← Coord.ofInt? (b.right.val + i)
  let bottom ← Coord.ofInt? (b.bottom.val + j)
  return ⟨left, top, right, bottom⟩

theorem edges_of_shift? (h : b.shift? i j = some b') :
    (b'.left.val = b.left.val + i ∧ b'.right.val = b.right.val + i) ∧
      b'.top.val = b.top.val + j ∧ b'.bottom.val = b.bottom.val + j := by
  simp only [shift?, Option.bind_eq_bind, Option.bind_eq_some_iff, Coord.ofInt?_eq_some_iff,
    Option.pure_def, Option.some.injEq] at h
  obtain ⟨left, hleft, top, htop, right, hright, bottom, hbottom, rfl⟩ := h
  exact ⟨⟨hleft.symm, hright.symm⟩, htop.symm, hbottom.symm⟩

/-- Nearer to the middle in both directions is held if farther out is. -/
theorem holdsCentre_of_le (hx : |x| ≤ 2 ^ 32) (hy : |y| ≤ 2 ^ 32) (hx' : |x'| ≤ 2 ^ 32)
    (hy' : |y'| ≤ 2 ^ 32) (hacross : |b.across x'| ≤ |b.across x|)
    (hdown : |b.down y'| ≤ |b.down y|) (h : b.holdsCentre x y) : b.holdsCentre x' y' := by
  have hcolumn := offCentreSq_le b.left.abs_val_le b.right.abs_val_le hx hx' hacross
  have hrow := offCentreSq_le b.top.abs_val_le b.bottom.abs_val_le hy hy' hdown
  have hcolumn₀ := offCentreSq_nonneg b.left.abs_val_le b.right.abs_val_le hx'
  have hrow₀ := offCentreSq_nonneg b.top.abs_val_le b.bottom.abs_val_le hy'
  simp only [holdsCentre, decide_eq_true_eq] at h ⊢
  exact (round_le_round (add_nonneg hcolumn₀ hrow₀) (add_le_add hcolumn hrow)).trans h

/-- If no column is nearer to the middle than this one, it is in the middle half of the box. -/
theorem across_le_of_nearest (hcolumns : 0 < b.columns)
    (h : ∀ x' : Int, |b.across x| ≤ |b.across x'|) : 2 * |b.across x| ≤ b.columns := by
  have hmiddle := h ((b.left.val + b.right.val) / 2)
  simp only [columns, across, Int.abs_eq_natAbs] at *
  omega

theorem middle_of_nearest (hb : b.isEmpty = false)
    (h : ∀ x' y' : Int, b.distanceSq x y ≤ b.distanceSq x' y') :
    2 * |b.across x| ≤ b.columns ∧ 2 * |b.down y| ≤ b.rows := by
  obtain ⟨hcolumns, hrows⟩ := isEmpty_eq_false_iff.mp hb
  constructor
  · apply across_le_of_nearest hcolumns
    intro x'
    exact sq_le_sq.mp (le_of_add_le_add_right (h x' y))
  · apply across_le_of_nearest (b := b.transpose) hrows
    intro y'
    exact sq_le_sq.mp (le_of_add_le_add_left (h x y'))

theorem holdsCentre_of_middle (hb : b.isEmpty = false) (hx : |x| ≤ 2 ^ 32) (hy : |y| ≤ 2 ^ 32)
    (hacross : 2 * |b.across x| ≤ b.columns) (hdown : 2 * |b.down y| ≤ b.rows) :
    b.holdsCentre x y := by
  obtain ⟨hcolumns, hrows⟩ := isEmpty_eq_false_iff.mp hb
  have hcolumn := offCentreSq_le_half b.left.abs_val_le b.right.abs_val_le hx hcolumns hacross
  have hrow := offCentreSq_le_half b.top.abs_val_le b.bottom.abs_val_le hy hrows hdown
  have hcolumn₀ := offCentreSq_nonneg b.left.abs_val_le b.right.abs_val_le hx
  have hrow₀ := offCentreSq_nonneg b.top.abs_val_le b.bottom.abs_val_le hy
  have hone : Binary64.round 1 = 1 := by simpa using round_half (m := 2) (by norm_num)
  simp only [holdsCentre, decide_eq_true_eq]
  calc add (offCentreSq b.left.val b.right.val x) (offCentreSq b.top.val b.bottom.val y)
      ≤ Binary64.round 1 := round_le_round (add_nonneg hcolumn₀ hrow₀) (by linarith)
    _ = 1 := hone

theorem holdsCentre_shift? (h : b.shift? i j = some b') (hx : |x| ≤ 2 ^ 32) (hy : |y| ≤ 2 ^ 32)
    (hx' : |x + i| ≤ 2 ^ 32) (hy' : |y + j| ≤ 2 ^ 32) :
    b'.holdsCentre (x + i) (y + j) = b.holdsCentre x y := by
  obtain ⟨⟨hleft, hright⟩, htop, hbottom⟩ := edges_of_shift? h
  have hcolumn := offCentreSq_congr b.left.abs_val_le b.right.abs_val_le hx b'.left.abs_val_le
    b'.right.abs_val_le hx' (by omega) (by omega)
  have hrow := offCentreSq_congr b.top.abs_val_le b.bottom.abs_val_le hy b'.top.abs_val_le
    b'.bottom.abs_val_le hy' (by omega) (by omega)
  rw [holdsCentre, holdsCentre, hcolumn, hrow]

theorem holdsCentre_transpose (b : Box) (x y : Int) :
    b.transpose.holdsCentre y x = b.holdsCentre x y := by
  rw [holdsCentre, holdsCentre, add, add, add_comm]
  rfl

end Box

namespace Mark
variable {x y x' y' : Nat}

theorem covers_ellipse_iff : (ellipse b ink).Covers width height x y ↔
    (b.isEmpty = false ∧ (b.left.val ≤ x ∧ x ≤ b.right.val) ∧
      (b.top.val ≤ y ∧ y ≤ b.bottom.val) ∧ b.holdsCentre x y) ∧
    x < width.toNat ∧ y < height.toNat := by
  rw [covers_iff, cells, ← Box.holdsPixel_iff]
  refine and_congr_left fun hin => ?_
  exact Box.mem_ellipse_iff_holdsPixel hin.1 hin.2

theorem abs_le_of_lt (hx : x < width.toNat) : |(x : Int)| ≤ 2 ^ 32 := by
  have := width.toNat_lt
  rw [abs_le]
  omega

theorem covers_of_nearer (hx' : x' < width.toNat) (hy' : y' < height.toNat)
    (hacross : |b.across x'| ≤ |b.across x|) (hdown : |b.down y'| ≤ |b.down y|)
    (h : (ellipse b ink).Covers width height x y) :
    (ellipse b ink).Covers width height x' y' := by
  obtain ⟨⟨hb, hin, hin', hholds⟩, hx, hy⟩ := covers_ellipse_iff.mp h
  have hholds' := Box.holdsCentre_of_le (abs_le_of_lt hx) (abs_le_of_lt hy) (abs_le_of_lt hx')
    (abs_le_of_lt hy') hacross hdown hholds
  simp only [Box.across, Box.down, Int.abs_eq_natAbs] at hacross hdown
  exact covers_ellipse_iff.mpr ⟨⟨hb, by omega, by omega, hholds'⟩, hx', hy'⟩

theorem covers_of_middle (hb : b.isEmpty = false) (hx : x < width.toNat)
    (hy : y < height.toNat) (hacross : 2 * |b.across x| ≤ b.columns)
    (hdown : 2 * |b.down y| ≤ b.rows) : (ellipse b ink).Covers width height x y := by
  have hholds := Box.holdsCentre_of_middle hb (abs_le_of_lt hx) (abs_le_of_lt hy) hacross hdown
  obtain ⟨hcolumns, hrows⟩ := Box.isEmpty_eq_false_iff.mp hb
  simp only [Box.across, Box.down, Box.columns, Box.rows, Int.abs_eq_natAbs] at *
  exact covers_ellipse_iff.mpr ⟨⟨hb, by omega, by omega, hholds⟩, hx, hy⟩

theorem across_between {i j k : Int} (hij : i ≤ j) (hjk : j ≤ k) :
    |b.across j| ≤ |b.across i| ∨ |b.across j| ≤ |b.across k| := by
  refine le_max_iff.mp (abs_le_max_abs_abs ?_ ?_) <;>
  · unfold Box.across
    omega

theorem covers_of_row {x₁ x₂ : Nat} (hx₁ : x₁ ≤ x) (hx₂ : x ≤ x₂)
    (h₁ : (ellipse b ink).Covers width height x₁ y)
    (h₂ : (ellipse b ink).Covers width height x₂ y) : (ellipse b ink).Covers width height x y := by
  obtain ⟨-, hin, hy⟩ := covers_ellipse_iff.mp h₂
  have hx := hx₂.trans_lt hin
  rcases across_between (b := b) (Int.ofNat_le.mpr hx₁) (Int.ofNat_le.mpr hx₂) with h | h
  · exact covers_of_nearer hx hy h le_rfl h₁
  · exact covers_of_nearer hx hy h le_rfl h₂

theorem covers_transpose_iff (ink' : Color) (hx : x < width.toNat) (hy : y < height.toNat)
    (hy' : y < width'.toNat) (hx' : x < height'.toNat) :
    (ellipse b ink).Covers width height x y ↔
      (ellipse b.transpose ink').Covers width' height' y x := by
  have hempty : b.transpose.isEmpty = b.isEmpty := Bool.or_comm _ _
  rw [covers_ellipse_iff, covers_ellipse_iff, hempty, b.holdsCentre_transpose]
  constructor
  · rintro ⟨⟨hb, hin, hin', hholds⟩, -⟩
    exact ⟨⟨hb, hin', hin, hholds⟩, hy', hx'⟩
  · rintro ⟨⟨hb, hin, hin', hholds⟩, -⟩
    exact ⟨⟨hb, hin', hin, hholds⟩, hx, hy⟩

theorem covers_shift_iff (h : b.shift? i j = some b') (hx : x < width.toNat)
    (hy : y < height.toNat) (hx' : x' < width'.toNat) (hy' : y' < height'.toNat)
    (hcolumn : (x' : Int) = x + i) (hrow : (y' : Int) = y + j) :
    (ellipse b ink).Covers width height x y ↔ (ellipse b' ink').Covers width' height' x' y' := by
  obtain ⟨⟨hleft, hright⟩, htop, hbottom⟩ := Box.edges_of_shift? h
  have hholds := Box.holdsCentre_shift? h (abs_le_of_lt hx) (abs_le_of_lt hy)
    (hcolumn ▸ abs_le_of_lt hx') (hrow ▸ abs_le_of_lt hy')
  have hempty : b'.isEmpty = false ↔ b.isEmpty = false := by
    simp only [Box.isEmpty_eq_false_iff, Box.columns, Box.rows]
    omega
  rw [covers_ellipse_iff, covers_ellipse_iff, hcolumn, hrow, hholds, hempty]
  constructor
  · rintro ⟨⟨hb, hin, hin', hholds⟩, -⟩
    exact ⟨⟨hb, by omega, by omega, hholds⟩, hx', hy'⟩
  · rintro ⟨⟨hb, hin, hin', hholds⟩, -⟩
    exact ⟨⟨hb, by omega, by omega, hholds⟩, hx, hy⟩

theorem covers_reflect_iff (hx : x < width.toNat) (hx' : x' < width.toNat)
    (h : (x : Int) + x' = b.left.val + b.right.val) :
    (ellipse b ink).Covers width height x y ↔ (ellipse b ink).Covers width height x' y := by
  have hacross : |b.across x'| = |b.across x| := by
    rw [abs_eq_abs]
    unfold Box.across
    omega
  constructor
  · intro hcovers
    exact covers_of_nearer hx' (covers_ellipse_iff.mp hcovers).2.2 hacross.le le_rfl hcovers
  · intro hcovers
    exact covers_of_nearer hx (covers_ellipse_iff.mp hcovers).2.2 hacross.ge le_rfl hcovers

/-- An ellipse covers what is nearer to the middle, in both directions, than a pixel that it
covers. So it has no gap in any row or column, it is the same on both sides of the middle, and
it covers what is nearest to the middle. -/
theorem ellipse_unbroken (b : Box) (hb : b.isEmpty = false) (ink : Color)
    (width height : UInt32) :
    (∀ x y x' y' : Nat, x' < width.toNat → y' < height.toNat →
      |b.across x'| ≤ |b.across x| → |b.down y'| ≤ |b.down y| →
      (ellipse b ink).Covers width height x y → (ellipse b ink).Covers width height x' y') ∧
    ((∀ x₁ x x₂ y : Nat, x₁ ≤ x → x ≤ x₂ → (ellipse b ink).Covers width height x₁ y →
        (ellipse b ink).Covers width height x₂ y → (ellipse b ink).Covers width height x y) ∧
      ∀ x y₁ y y₂ : Nat, y₁ ≤ y → y ≤ y₂ → (ellipse b ink).Covers width height x y₁ →
        (ellipse b ink).Covers width height x y₂ → (ellipse b ink).Covers width height x y) ∧
    ((∀ x x' y : Nat, x < width.toNat → x' < width.toNat →
        (x : Int) + x' = b.left.val + b.right.val →
        ((ellipse b ink).Covers width height x y ↔ (ellipse b ink).Covers width height x' y)) ∧
      ∀ x y y' : Nat, y < height.toNat → y' < height.toNat →
        (y : Int) + y' = b.top.val + b.bottom.val →
        ((ellipse b ink).Covers width height x y ↔ (ellipse b ink).Covers width height x y')) ∧
    ∀ x y : Nat, x < width.toNat → y < height.toNat →
      (∀ x' y' : Int, b.distanceSq x y ≤ b.distanceSq x' y') →
      (ellipse b ink).Covers width height x y := by
  refine ⟨fun x y x' y' => covers_of_nearer, ⟨fun x₁ x x₂ y => covers_of_row, ?_⟩,
    ⟨fun x x' y => covers_reflect_iff, ?_⟩, ?_⟩
  · intro x y₁ y y₂ hy₁ hy₂ h₁ h₂
    obtain ⟨-, hx, hin⟩ := covers_ellipse_iff.mp h₂
    have hy := hy₂.trans_lt hin
    exact (covers_transpose_iff ink hx hy hy hx).mpr (covers_of_row hy₁ hy₂
      ((covers_transpose_iff ink hx (hy₁.trans_lt hy) (hy₁.trans_lt hy) hx).mp h₁)
      ((covers_transpose_iff ink hx hin hin hx).mp h₂))
  · intro x y y' hy hy' hmirror
    by_cases hx : x < width.toNat
    · rw [covers_transpose_iff ink hx hy hy hx, covers_transpose_iff ink hx hy' hy' hx]
      exact covers_reflect_iff hy hy' hmirror
    · refine iff_of_false ?_ ?_ <;>
      · intro h
        exact hx (covers_ellipse_iff.mp h).2.1
  · intro x y hx hy hnearest
    obtain ⟨hacross, hdown⟩ := Box.middle_of_nearest hb hnearest
    exact covers_of_middle hb hx hy hacross hdown

/-- An ellipse with edges as far out as coordinates go: a corner of the raster is covered, with all
that is nearer to the middle, and the corner at the middle is covered in any case. -/
theorem ellipse_unbroken_widest :
    let widest : Box := ⟨⟨-2147483648, by decide, by decide⟩, ⟨-2147483648, by decide, by decide⟩,
      .ofNat 2147483647, .ofNat 2147483647⟩
    let covers := (ellipse widest Drawing.crabRed).Covers 10 10
    widest.isEmpty = false ∧ covers 9 9 ∧ covers 3 4 ∧ covers 0 0 := by
  intro widest covers
  have hcorner : covers 9 9 := covers_ellipse_iff.mpr (by decide +kernel)
  obtain ⟨hnearer, -, -, hnearest⟩ :=
    ellipse_unbroken widest (by decide) Drawing.crabRed 10 10
  refine ⟨by decide, hcorner, hnearer 9 9 3 4 (by decide) (by decide) (by decide) (by decide)
    hcorner, hnearest 0 0 (by decide) (by decide) fun x' y' => ?_⟩
  have hodd (n : Int) : 1 ≤ (2 * n - -2147483648 - 2147483647) ^ 2 := by
    rw [one_le_sq_iff_one_le_abs, Int.abs_eq_natAbs]
    omega
  calc widest.distanceSq 0 0 = 1 + 1 := by decide
    _ ≤ widest.distanceSq x' y' := add_le_add (hodd x') (hodd y')

/-- An ellipse goes along with its box, from one raster to another: moved by whole pixels, it
covers what it covered before, moved; and laid on its side, the same with rows and columns
exchanged. -/
theorem ellipse_moves :
    (∀ (b b' : Box) (i j : Int) (ink ink' : Color) (width height width' height' : UInt32)
      (x y x' y' : Nat), b.shift? i j = some b' → x < width.toNat → y < height.toNat →
      x' < width'.toNat → y' < height'.toNat → (x' : Int) = x + i → (y' : Int) = y + j →
      ((ellipse b ink).Covers width height x y ↔
        (ellipse b' ink').Covers width' height' x' y')) ∧
    ∀ (b : Box) (ink ink' : Color) (width height width' height' : UInt32) (x y : Nat),
      x < width.toNat → y < height.toNat → y < width'.toNat → x < height'.toNat →
      ((ellipse b ink).Covers width height x y ↔
        (ellipse b.transpose ink').Covers width' height' y x) := by
  constructor
  · intro b b' i j ink ink' width height width' height' x y x' y'
    exact covers_shift_iff
  · intro b ink ink' width height width' height' x y
    exact covers_transpose_iff ink'

/-- A box is moved until half of it is off the raster. The middle of the ellipse is then covered
on the left edge, and the corner of the box is left out as before; and so on its side. -/
theorem ellipse_moves_half_out :
    let b : Box := ⟨.ofNat 5, .ofNat 5, .ofNat 34, .ofNat 24⟩
    let b' : Box := ⟨⟨-15, by decide, by decide⟩, .ofNat 8, .ofNat 14, .ofNat 27⟩
    let ink := Drawing.crabRed
    b.shift? (-20) 3 = some b' ∧ (ellipse b' ink).Covers 16 28 0 13 ∧
      ¬ (ellipse b' ink).Covers 16 28 14 27 ∧ (ellipse b.transpose ink).Covers 30 40 10 20 := by
  intro b b' ink
  obtain ⟨hmoved, hturned⟩ := ellipse_moves
  have hshift : b.shift? (-20) 3 = some b' := by decide
  have hcovers : (ellipse b ink).Covers 40 30 20 10 := covers_ellipse_iff.mpr (by decide +kernel)
  have hnot : ¬ (ellipse b ink).Covers 40 30 34 24 := fun h =>
    absurd (covers_ellipse_iff.mp h) (by decide +kernel)
  refine ⟨hshift, ?_, fun h => hnot ?_, ?_⟩
  · exact (hmoved b b' (-20) 3 ink ink 40 30 16 28 20 10 0 13 hshift (by decide) (by decide)
      (by decide) (by decide) (by decide) (by decide)).mp hcovers
  · exact (hmoved b b' (-20) 3 ink ink 40 30 16 28 34 24 14 27 hshift (by decide) (by decide)
      (by decide) (by decide) (by decide) (by decide)).mpr h
  · exact (hturned b ink ink 40 30 30 40 20 10 (by decide) (by decide) (by decide)
      (by decide)).mp hcovers

end Mark

end IconPainter
