import IconPainter.Proofs.Raster.Ellipse
import IconPainter.Raster.Loop

/-! # What the loop over the box paints

No number in the loop over the box leaves its word, and no pixel is off the raster. So
the loop paints what is painted without words, and that is what a visit of every pixel
of the raster paints, on the box or not.
-/

namespace IconPainter

/-! ### Words -/

namespace Word

variable {a b c : Int64} {n : Int}

theorem exists_ofInt? (hlow : -2 ^ 63 ≤ n) (hhigh : n < 2 ^ 63) :
    ∃ a, ofInt? n = some a ∧ a.toInt = n :=
  ⟨.ofInt n, if_pos ⟨hlow, by omega⟩, Int64.toInt_ofInt_of_le hlow hhigh⟩

theorem exists_add? (hlow : -2 ^ 63 ≤ a.toInt + b.toInt) (hhigh : a.toInt + b.toInt < 2 ^ 63) :
    ∃ c, add? a b = some c ∧ c.toInt = a.toInt + b.toInt :=
  exists_ofInt? hlow hhigh

theorem exists_sub? (hlow : -2 ^ 63 ≤ a.toInt - b.toInt) (hhigh : a.toInt - b.toInt < 2 ^ 63) :
    ∃ c, sub? a b = some c ∧ c.toInt = a.toInt - b.toInt :=
  exists_ofInt? hlow hhigh

@[simp] theorem toInt_zero : (0 : Int64).toInt = 0 := by decide

theorem exists_next (h : a.toInt + 1 < 2 ^ 63) :
    ∃ next, add? a 1 = some next ∧ next.toInt = a.toInt + 1 := by
  have := a.le_toInt
  obtain ⟨next, hnext, hvalue⟩ := exists_add? (a := a) (b := 1)
    (by rw [toInt_one]; omega) (by rw [toInt_one]; omega)
  rw [toInt_one] at hvalue
  exact ⟨next, hnext, hvalue⟩

theorem toInt_ofCoord (c : Coord) : (ofCoord c).toInt = c.val := by
  have := c.min_le
  have := c.le_max
  exact Int64.toInt_ofInt_of_le (by omega) (by omega)

theorem toInt_ofUInt32 (n : UInt32) : (ofUInt32 n).toInt = n.toNat := by
  have := n.toNat_lt
  exact Int64.toInt_ofInt_of_le (by omega) (by omega)

theorem exists_last (n : UInt32) :
    ∃ last, sub? (ofUInt32 n) 1 = some last ∧ last.toInt = n.toNat - 1 := by
  have hn := n.toNat_lt
  obtain ⟨last, hlast, hvalue⟩ := exists_sub? (a := ofUInt32 n) (b := 1)
    (by rw [toInt_ofUInt32, toInt_one]; omega) (by rw [toInt_ofUInt32, toInt_one]; omega)
  rw [toInt_ofUInt32, toInt_one] at hvalue
  exact ⟨last, hlast, hvalue⟩

theorem toInt_max (a b : Int64) : (max a b).toInt = max a.toInt b.toInt := by
  change (if a ≤ b then b else a).toInt = _
  split <;> rename_i h <;> rw [Int64.le_iff_toInt_le] at h <;> omega

theorem toInt_min (a b : Int64) : (min a b).toInt = min a.toInt b.toInt := by
  change (if a ≤ b then a else b).toInt = _
  split <;> rename_i h <;> rw [Int64.le_iff_toInt_le] at h <;> omega

theorem exists_toUInt32? (hlow : 0 ≤ a.toInt) (hhigh : a.toInt < 2 ^ 32) :
    ∃ m, toUInt32? a = some m ∧ m.toNat = a.toInt := by
  have hlt : a.toInt.toNat < 2 ^ 32 := by omega
  refine ⟨.ofNat a.toInt.toNat, if_pos ⟨hlow, by omega⟩, ?_⟩
  rw [UInt32.toNat_ofNat_of_lt' hlt, Int.toNat_of_nonneg hlow]

theorem toBinary64_eq (h : |a.toInt| < 2 ^ 53) : toBinary64 a = a.toInt :=
  Binary64.round_intCast h

theorem halfNext?_eq (ha : |a.toInt| ≤ 2 ^ 33) :
    halfNext? a = some (Binary64.div (a.toInt + 1 : Int) 2) := by
  rw [abs_le] at ha
  obtain ⟨next, hnext, hvalue⟩ := exists_next (a := a) (by omega)
  have hexact := toBinary64_eq (a := next) (abs_lt.mpr (by omega))
  simp only [halfNext?, hnext, hexact, hvalue, Option.bind_eq_bind, Option.bind_some,
    Option.pure_def]

theorem middle?_ofCoord (first last : Coord) : middle? (ofCoord first) (ofCoord last) =
    some (Binary64.div (first.val + last.val + 1 : Int) 2) := by
  obtain ⟨hfirst, hfirst'⟩ := abs_le.mp first.abs_val_le
  obtain ⟨hlast, hlast'⟩ := abs_le.mp last.abs_val_le
  obtain ⟨sum, hsum, hvalue⟩ := exists_add? (a := ofCoord first) (b := ofCoord last)
    (by simp only [toInt_ofCoord]; omega) (by simp only [toInt_ofCoord]; omega)
  rw [toInt_ofCoord, toInt_ofCoord] at hvalue
  have hhalf := halfNext?_eq (a := sum) (abs_le.mpr (by omega))
  simp only [middle?, hsum, hhalf, hvalue, Option.bind_eq_bind, Option.bind_some]

theorem radius?_ofCoord (first last : Coord) : radius? (ofCoord first) (ofCoord last) =
    some (Binary64.div (last.val - first.val + 1 : Int) 2) := by
  obtain ⟨hfirst, hfirst'⟩ := abs_le.mp first.abs_val_le
  obtain ⟨hlast, hlast'⟩ := abs_le.mp last.abs_val_le
  obtain ⟨distance, hdistance, hvalue⟩ := exists_sub? (a := ofCoord last) (b := ofCoord first)
    (by simp only [toInt_ofCoord]; omega) (by simp only [toInt_ofCoord]; omega)
  rw [toInt_ofCoord, toInt_ofCoord] at hvalue
  have hhalf := halfNext?_eq (a := distance) (abs_le.mpr (by omega))
  simp only [radius?, hdistance, hhalf, hvalue, Option.bind_eq_bind, Option.bind_some]

theorem offCentre_eq {first last : Int} (ha : |a.toInt| < 2 ^ 53) :
    offCentre (Binary64.div (first + last + 1 : Int) 2) (Binary64.div (last - first + 1 : Int) 2)
      a = IconPainter.offCentre first last a.toInt := by
  rw [offCentre, toBinary64_eq ha]
  rfl

end Word

/-! ### Painting in a loop -/

namespace Raster

/-- The second raster is the first with ink on all its pixels where `p` holds. -/
structure Painted (ink : Color) (p : Nat → Nat → Prop) (r r' : Raster) : Prop where
  width : r'.width = r.width
  height : r'.height = r.height
  inside : ∀ x y, p x y → r'.pixel? x y = (r.pixel? x y).map fun _ => ink
  outside : ∀ x y, ¬ p x y → r'.pixel? x y = r.pixel? x y

/-- The raster after every pixel is visited, and painted where `p` says so. -/
def paintWhere (r : Raster) (p : Nat → Nat → Bool) (ink : Color) : Raster where
  width := r.width
  height := r.height
  pixels := r.pixels.mapIdx fun i c =>
    if p (i % r.width.toNat) (i / r.width.toNat) then ink else c
  size_pixels := by rw [Array.size_mapIdx, r.size_pixels]

variable {r r' r'' : Raster} {ink : Color} {p q : Nat → Nat → Prop}

namespace Painted

theorem refl (r : Raster) (h : ∀ x y, ¬ p x y) : Painted ink p r r where
  width := rfl
  height := rfl
  inside x y hp := (h x y hp).elim
  outside _ _ _ := rfl

theorem trans (h : Painted ink p r r') (h' : Painted ink q r' r'') :
    Painted ink (fun x y => p x y ∨ q x y) r r'' where
  width := h'.width.trans h.width
  height := h'.height.trans h.height
  inside x y hor := by
    by_cases hq : q x y
    · by_cases hp : p x y
      · rw [h'.inside x y hq, h.inside x y hp, Option.map_map]
        rfl
      · rw [h'.inside x y hq, h.outside x y hp]
    · rw [h'.outside x y hq, h.inside x y (hor.resolve_right hq)]
  outside x y hor := by
    rw [not_or] at hor
    rw [h'.outside x y hor.2, h.outside x y hor.1]

theorem congr (h : Painted ink p r r')
    (hpq : ∀ x y, x < r.width.toNat → y < r.height.toNat → (p x y ↔ q x y)) :
    Painted ink q r r' where
  width := h.width
  height := h.height
  inside x y hq := by
    by_cases hin : x < r.width.toNat ∧ y < r.height.toNat
    · exact h.inside x y ((hpq x y hin.1 hin.2).mpr hq)
    · rw [r.pixel?_eq_none hin, r'.pixel?_eq_none (h.width ▸ h.height ▸ hin), Option.map_none]
  outside x y hq := by
    by_cases hin : x < r.width.toNat ∧ y < r.height.toNat
    · exact h.outside x y fun hp => hq ((hpq x y hin.1 hin.2).mp hp)
    · rw [r.pixel?_eq_none hin, r'.pixel?_eq_none (h.width ▸ h.height ▸ hin)]

theorem unique (h : Painted ink p r r') (h' : Painted ink p r r'') : r' = r'' := by
  refine ext_pixel? (h.width.trans h'.width.symm) (h.height.trans h'.height.symm) ?_
  intro x y _ _
  by_cases hp : p x y
  · rw [h.inside x y hp, h'.inside x y hp]
  · rw [h.outside x y hp, h'.outside x y hp]

end Painted

theorem painted_set (r : Raster) (x y : Nat) (ink : Color) :
    Painted ink (fun x' y' => x' = x ∧ y' = y) r (r.set x y ink) where
  width := r.width_set x y ink
  height := r.height_set x y ink
  inside x' y' h := by rw [pixel?_set, if_pos h]
  outside x' y' h := by rw [pixel?_set, if_neg h]

theorem painted_paint (r : Raster) (cells : List (Nat × Nat)) (ink : Color) :
    Painted ink (fun x y => (x, y) ∈ cells) r (r.paint cells ink) where
  width := r.width_paint _ _
  height := r.height_paint _ _
  inside x y h := by rw [pixel?_paint, if_pos h]
  outside x y h := by rw [pixel?_paint, if_neg h]

theorem painted_paintWhere (r : Raster) (p : Nat → Nat → Bool) (ink : Color) :
    Painted ink (fun x y => p x y = true) r (r.paintWhere p ink) := by
  have hpixel (x y : Nat) : (r.paintWhere p ink).pixel? x y =
      (r.pixel? x y).map fun c => if p x y then ink else c := by
    by_cases hin : x < r.width.toNat ∧ y < r.height.toNat
    · have hcolumn : (y * r.width.toNat + x) % r.width.toNat = x := by
        rw [Nat.mul_add_mod_self_right, Nat.mod_eq_of_lt hin.1]
      have hrow : (y * r.width.toNat + x) / r.width.toNat = y := by
        rw [Nat.mul_comm, Nat.mul_add_div (Nat.zero_lt_of_lt hin.1), Nat.div_eq_of_lt hin.1,
          Nat.add_zero]
      rw [r.pixel?_eq_getElem? hin, (r.paintWhere p ink).pixel?_eq_getElem? hin]
      simp only [paintWhere, Array.getElem?_mapIdx, hcolumn, hrow]
    · rw [r.pixel?_eq_none hin, (r.paintWhere p ink).pixel?_eq_none hin, Option.map_none]
  refine ⟨rfl, rfl, fun x y hp => ?_, fun x y hp => ?_⟩
  · simp only [hpixel, if_pos hp]
  · simp only [hpixel, if_neg hp, Option.map_id']

theorem visit_of_next {body : Int64 → Raster → Option Raster} {first last next : Int64}
    (hempty : ¬ last < first) (hlast : first ≠ last) (hnext : Word.add? first 1 = some next) :
    visit body first last = fun r => (body first r).bind (visit body next last) := by
  rw [visit, if_neg hempty, if_neg hlast]
  split <;> rename_i hword <;> rw [hnext] at hword
  · contradiction
  · obtain rfl := Option.some.inj hword
    rfl

/-- What is done to a raster of the given size does not give up, and paints where `p` holds. -/
def Paints (width height : UInt32) (ink : Color) (p : Nat → Nat → Prop)
    (f : Raster → Option Raster) : Prop :=
  ∀ r : Raster, r.width = width → r.height = height → ∃ r', f r = some r' ∧ Painted ink p r r'

namespace Paints
variable {width height : UInt32} {f g : Raster → Option Raster}

theorem skip (h : ∀ x y, ¬ p x y) : Paints width height ink p some :=
  fun r _ _ => ⟨r, rfl, .refl r h⟩

theorem bind (hf : Paints width height ink p f) (hg : Paints width height ink q g) :
    Paints width height ink (fun x y => p x y ∨ q x y) fun r => (f r).bind g := by
  intro r hwidth hheight
  obtain ⟨r', hr', hpainted⟩ := hf r hwidth hheight
  obtain ⟨r'', hr'', hpainted'⟩ :=
    hg r' (hpainted.width.trans hwidth) (hpainted.height.trans hheight)
  refine ⟨r'', ?_, hpainted.trans hpainted'⟩
  simp only [hr', Option.bind_some, hr'']

theorem congr (hf : Paints width height ink p f)
    (h : ∀ x y, x < width.toNat → y < height.toNat → (p x y ↔ q x y)) :
    Paints width height ink q f := by
  rintro r rfl rfl
  obtain ⟨r', hr', hpainted⟩ := hf r rfl rfl
  exact ⟨r', hr', hpainted.congr h⟩

/-- All words together paint wherever one of them does. -/
theorem visit {body : Int64 → Raster → Option Raster} {first last : Int64}
    {p : Int → Nat → Nat → Prop}
    (h : ∀ k : Int64, first.toInt ≤ k.toInt → k.toInt ≤ last.toInt →
      Paints width height ink (p k.toInt) (body k)) :
    Paints width height ink (fun x y => ∃ k, (first.toInt ≤ k ∧ k ≤ last.toInt) ∧ p k x y)
      (visit body first last) := by
  induction first using visit.induct last with
  | case1 first hempty =>
    rw [Raster.visit, if_pos hempty]
    apply skip
    rintro x y ⟨k, hk, -⟩
    rw [Int64.lt_iff_toInt_lt] at hempty
    omega
  | case2 hempty =>
    rw [Raster.visit, if_neg hempty, if_pos rfl]
    refine (h last le_rfl le_rfl).congr fun x y _ _ => ?_
    constructor
    · intro hp
      exact ⟨last.toInt, ⟨le_rfl, le_rfl⟩, hp⟩
    · rintro ⟨k, ⟨hle, hge⟩, hp⟩
      exact le_antisymm hle hge ▸ hp
  | case3 first hempty hlast hnone =>
    -- A word below another has a next one.
    have hlt := Word.toInt_lt hempty hlast
    have := last.toInt_lt
    obtain ⟨next, hnext, -⟩ := Word.exists_next (a := first) (by omega)
    rw [hnone] at hnext
    contradiction
  | case4 first hempty hlast next hnext ih =>
    have hlt := Word.toInt_lt hempty hlast
    have hsucc := Word.toInt_of_add? hnext
    rw [Word.toInt_one] at hsucc
    have hrest := ih fun k hk hk' => h k (by omega) hk'
    rw [visit_of_next hempty hlast hnext]
    refine ((h first le_rfl hlt.le).bind hrest).congr fun x y _ _ => ?_
    constructor
    · rintro (hp | ⟨k, ⟨hle, hge⟩, hp⟩)
      · exact ⟨first.toInt, ⟨le_rfl, hlt.le⟩, hp⟩
      · exact ⟨k, ⟨by omega, hge⟩, hp⟩
    · rintro ⟨k, ⟨hle, hge⟩, hp⟩
      by_cases hk : k = first.toInt
      · exact .inl (hk ▸ hp)
      · exact .inr ⟨k, ⟨by omega, hge⟩, hp⟩

end Paints

/-! ### Painting an ellipse -/

section
variable {width height : UInt32} {b : Box} {dx dy : Rat} {x y : Int64}

theorem paints_pixel (hx : 0 ≤ x.toInt) (hx' : x.toInt < width.toNat) (hy : 0 ≤ y.toInt)
    (hy' : y.toInt < height.toNat) :
    Paints width height ink
      (fun i j => (i = x.toInt ∧ j = y.toInt) ∧
        Binary64.add (Binary64.mul dx dx) (Binary64.mul dy dy) ≤ 1)
      (paintPixel? ink dx dy x y) := by
  unfold paintPixel?
  split
  · rename_i hle
    rintro r rfl rfl
    have := r.width.toNat_lt
    have := r.height.toNat_lt
    obtain ⟨column, hcolumn, hvalue⟩ := Word.exists_toUInt32? hx (by omega)
    obtain ⟨row, hrow, hvalue'⟩ := Word.exists_toUInt32? hy (by omega)
    have hin : column < r.width ∧ row < r.height := by
      rw [UInt32.lt_iff_toNat_lt, UInt32.lt_iff_toNat_lt]
      omega
    refine ⟨r.set column.toNat row.toNat ink, ?_, (painted_set r _ _ ink).congr ?_⟩
    · simp only [hcolumn, hrow, Option.bind_eq_bind, Option.bind_some, put?, if_pos hin]
    · intro i j _ _
      constructor
      · rintro ⟨rfl, rfl⟩
        exact ⟨⟨hvalue, hvalue'⟩, hle⟩
      · rintro ⟨⟨hi, hj⟩, -⟩
        omega
  · rename_i hnle
    exact Paints.skip fun i j h => hnle h.2

theorem paints_row (hy : 0 ≤ y.toInt) (hy' : y.toInt < height.toNat) :
    Paints width height ink
      (fun i j => j = y.toInt ∧ (b.left.val ≤ i ∧ i ≤ b.right.val) ∧
        Binary64.add (offCentreSq b.left.val b.right.val i) (Binary64.mul dy dy) ≤ 1)
      (paintRow? b ink (Binary64.div (b.left.val + b.right.val + 1 : Int) 2)
        (Binary64.div (b.right.val - b.left.val + 1 : Int) 2) dy (Word.ofUInt32 width) y) := by
  have hwidth := width.toNat_lt
  obtain ⟨lastColumn, hlast, hvalue⟩ := Word.exists_last width
  unfold paintRow?
  simp only [hlast, Option.bind_eq_bind, Option.bind_some]
  refine Paints.congr (Paints.visit (p := fun k i j => (i = k ∧ j = y.toInt) ∧
    Binary64.add (offCentreSq b.left.val b.right.val k) (Binary64.mul dy dy) ≤ 1) ?_) ?_
  · intro k hk hk'
    rw [Word.toInt_max, Word.toInt_ofCoord, Word.toInt_zero] at hk
    rw [Word.toInt_min, Word.toInt_ofCoord] at hk'
    rw [Word.offCentre_eq (abs_lt.mpr (by omega))]
    exact paints_pixel (by omega) (by omega) hy hy'
  · intro i j hi hj
    rw [Word.toInt_max, Word.toInt_min, Word.toInt_ofCoord, Word.toInt_ofCoord, Word.toInt_zero]
    constructor
    · rintro ⟨k, hk, ⟨rfl, hrow⟩, hle⟩
      exact ⟨hrow, by omega, hle⟩
    · rintro ⟨hrow, hcolumn, hle⟩
      exact ⟨i, by omega, ⟨rfl, hrow⟩, hle⟩

/-- The loop does not give up, and paints the pixels in the box whose centres the ellipse
holds. -/
theorem exists_paintEllipse? (r : Raster) (b : Box) (ink : Color) :
    ∃ r', r.paintEllipse? b ink = some r' ∧
      Painted ink (fun x y => b.holdsPixel x y) r r' := by
  simp only [Box.holdsPixel_iff]
  unfold paintEllipse?
  split
  · rename_i hempty
    refine ⟨r, rfl, .refl r ?_⟩
    rintro x y ⟨hb, -⟩
    rw [hempty] at hb
    contradiction
  · rename_i hempty
    rw [Bool.not_eq_true] at hempty
    have hheight := r.height.toNat_lt
    obtain ⟨lastRow, hlast, hvalue⟩ := Word.exists_last r.height
    simp only [Word.middle?_ofCoord, Word.radius?_ofCoord, hlast, Option.bind_eq_bind,
      Option.bind_some]
    refine Paints.congr (Paints.visit (p := fun k i j => j = k ∧
      (b.left.val ≤ i ∧ i ≤ b.right.val) ∧ b.holdsCentre i k) ?_) ?_ r rfl rfl
    · intro k hk hk'
      rw [Word.toInt_max, Word.toInt_ofCoord, Word.toInt_zero] at hk
      rw [Word.toInt_min, Word.toInt_ofCoord] at hk'
      rw [Word.offCentre_eq (abs_lt.mpr (by omega))]
      simp only [Box.holdsCentre, decide_eq_true_eq]
      exact paints_row (by omega) (by omega)
    · intro i j hi hj
      rw [Word.toInt_max, Word.toInt_min, Word.toInt_ofCoord, Word.toInt_ofCoord, Word.toInt_zero]
      constructor
      · rintro ⟨k, hk, rfl, hcolumn, hholds⟩
        exact ⟨hempty, hcolumn, by omega, hholds⟩
      · rintro ⟨-, hcolumn, hrow, hholds⟩
        exact ⟨j, by omega, rfl, hcolumn, hholds⟩

end

theorem painted_paintEllipse (r : Raster) (b : Box) (ink : Color) :
    Painted ink (fun x y => b.holdsPixel x y) r (r.paintEllipse b ink) := by
  refine (painted_paint r _ ink).congr fun x y hx hy => ?_
  exact Box.mem_ellipse_iff_holdsPixel hx hy

/-- The loop over the part of the box that is on the raster always comes to its end. It paints
the ellipse, which is what a visit of every pixel does that paints the pixels in the box whose
centres are in the ellipse and keeps the others. The size of the raster stays as it is. -/
theorem paintEllipse_clipped (r : Raster) (b : Box) (ink : Color) :
    r.paintEllipse? b ink = some (r.paintEllipse b ink) ∧
      r.paintEllipse b ink = r.paintWhere b.holdsPixel ink ∧
      (r.paintEllipse b ink).width = r.width ∧ (r.paintEllipse b ink).height = r.height := by
  have hpainted := r.painted_paintEllipse b ink
  obtain ⟨r', hr', hloop⟩ := exists_paintEllipse? r b ink
  refine ⟨?_, ?_, hpainted.width, hpainted.height⟩
  · rw [hr', hloop.unique hpainted]
  · exact hpainted.unique (r.painted_paintWhere b.holdsPixel ink)

end Raster

end IconPainter
