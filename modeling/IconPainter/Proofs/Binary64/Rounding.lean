import Mathlib.Algebra.Order.Field.Power
import Mathlib.Algebra.Order.Field.Rat
import Mathlib.Tactic.FieldSimp
import Mathlib.Tactic.Linarith
import Mathlib.Tactic.Positivity
import Mathlib.Tactic.Ring
import IconPainter.Binary64

/-! # Rounding

A number is rounded to a nearest multiple of its last place. This moves it by half a
last place at most, which is a fraction `2 ^ (-53)` of it unless it is tiny, and
a number of few enough bits is not moved at all. What several roundings do to a
positive number is bounded by a power of what one does.
-/

namespace IconPainter.Binary64

variable {n m e k : Int} {d : Nat} {x : ℚ}

/-! ### Nearest integers -/

theorem two_mul_abs_nearestEven_sub_le (n : Int) (hd : 0 < d) :
    2 * |nearestEven n d * d - n| ≤ d := by
  have hdiv : d * (n / d) + n % d = n := Int.mul_ediv_add_emod n d
  have hneg : 0 ≤ n % d := Int.emod_nonneg n (by omega)
  have hlt : n % d < d := Int.emod_lt_of_pos n (by omega)
  have hfloor : n / d * d = n - n % d := by linarith
  have hnext : (n / d + 1) * d = n - n % d + d := by rw [add_mul, hfloor, one_mul]
  have heither : (nearestEven n d * d = n - n % d ∧ 2 * (n % d) ≤ d) ∨
      (nearestEven n d * d = n - n % d + d ∧ d ≤ 2 * (n % d)) := by
    simp only [nearestEven]
    split_ifs with hdown hup heven
    · exact .inl ⟨hfloor, hdown.le⟩
    · exact .inr ⟨hnext, hup.le⟩
    · exact .inl ⟨hfloor, not_lt.mp hup⟩
    · exact .inr ⟨hnext, not_lt.mp hdown⟩
  rw [← abs_two, ← abs_mul, abs_le]
  omega

theorem abs_nearestEven_sub_le (n : Int) (hd : 0 < d) :
    |(nearestEven n d : ℚ) - n / d| ≤ 1 / 2 := by
  have hpos : (0 : ℚ) < d := by exact_mod_cast hd
  have hle : 2 * |(nearestEven n d * d - n : ℚ)| ≤ d := by
    exact_mod_cast two_mul_abs_nearestEven_sub_le n hd
  have heq : (nearestEven n d : ℚ) - n / d = (nearestEven n d * d - n) / d := by
    field_simp
  rw [heq, abs_div, abs_of_pos hpos, div_le_iff₀ hpos]
  linarith

/-! ### Powers of two -/

theorem scale_pos (k : Int) : 0 < scale k := by
  rw [scale, Nat.one_shiftLeft]
  positivity

theorem scale_div_scale_neg (k : Int) : (scale k / scale (-k) : ℚ) = 2 ^ k := by
  obtain ⟨n, rfl | rfl⟩ := k.eq_nat_or_neg <;> simp [scale, Nat.one_shiftLeft]

theorem two_zpow_pos (k : Int) : (0 : ℚ) < 2 ^ k := zpow_pos two_pos k

theorem floorLog2_spec {n d : Nat} (hn : 0 < n) (hd : 0 < d) :
    (2 : ℚ) ^ floorLog2 n d ≤ n / d ∧ (n / d : ℚ) < 2 ^ (floorLog2 n d + 1) := by
  have hpos : (0 : ℚ) < d := by exact_mod_cast hd
  have hnlow : (2 : ℚ) ^ n.log2 ≤ n := by exact_mod_cast Nat.log2_self_le hn.ne'
  have hnhigh : (n : ℚ) < 2 ^ (n.log2 + 1) := by exact_mod_cast Nat.lt_log2_self
  have hdlow : (2 : ℚ) ^ d.log2 ≤ d := by exact_mod_cast Nat.log2_self_le hd.ne'
  have hdhigh : (d : ℚ) < 2 ^ (d.log2 + 1) := by exact_mod_cast Nat.lt_log2_self
  set k : Int := (n.log2 : Int) - d.log2 with hk
  have hk₀ : (2 : ℚ) ^ k * 2 ^ d.log2 = 2 ^ n.log2 := by
    rw [hk, ← zpow_natCast, ← zpow_natCast, ← zpow_add₀ two_ne_zero]
    congr 1
    omega
  have htest : d * scale k ≤ n * scale (-k) ↔ (2 : ℚ) ^ k ≤ n / d := by
    have hs : (0 : ℚ) < scale (-k) := by exact_mod_cast scale_pos (-k)
    rw [le_div_iff₀ hpos, ← scale_div_scale_neg, div_mul_eq_mul_div, div_le_iff₀ hs, mul_comm]
    exact_mod_cast Iff.rfl
  have hk₁ : (2 : ℚ) ^ (k + 1) = 2 * 2 ^ k := by rw [zpow_add_one₀ two_ne_zero, mul_comm]
  have hk₂ : (2 : ℚ) ^ k = 2 * 2 ^ (k - 1) := by
    rw [← zpow_one_add₀ two_ne_zero, add_sub_cancel]
  simp only [floorLog2, ← hk]
  split_ifs with h
  · refine ⟨htest.mp h, ?_⟩
    rw [div_lt_iff₀ hpos, hk₁]
    calc (n : ℚ) < 2 ^ (n.log2 + 1) := hnhigh
      _ = 2 * 2 ^ k * 2 ^ d.log2 := by rw [mul_assoc, hk₀]; ring
      _ ≤ 2 * 2 ^ k * d := by gcongr
  · refine ⟨?_, ?_⟩
    · rw [le_div_iff₀ hpos]
      calc (2 : ℚ) ^ (k - 1) * d ≤ 2 ^ (k - 1) * 2 ^ (d.log2 + 1) := by gcongr
        _ = 2 ^ k * 2 ^ d.log2 := by rw [hk₂]; ring
        _ ≤ n := hk₀ ▸ hnlow
    · rw [sub_add_cancel]
      exact lt_of_not_ge fun hge => h (htest.mpr hge)

/-! ### The last place -/

theorem abs_eq_div (x : ℚ) : |x| = x.num.natAbs / x.den := by
  conv_lhs => rw [← Rat.num_div_den x]
  rw [abs_div, Nat.abs_cast, Nat.cast_natAbs, Int.cast_abs]

theorem abs_spec (hx : x ≠ 0) : (2 : ℚ) ^ floorLog2 x.num.natAbs x.den ≤ |x| ∧
    |x| < 2 ^ (floorLog2 x.num.natAbs x.den + 1) := by
  rw [abs_eq_div]
  exact floorLog2_spec (Int.natAbs_pos.mpr (Rat.num_ne_zero.mpr hx)) x.den_pos

/-- Rounding in units of the last place is rounding to a nearest integer. -/
theorem round_eq (hx : x ≠ 0) : ∃ m : Int, round x = m * 2 ^ lastPlace x ∧
    |(m : ℚ) - x / 2 ^ lastPlace x| ≤ 1 / 2 := by
  set e := lastPlace x with he
  have hs : (0 : ℚ) < scale e := by exact_mod_cast scale_pos e
  have hs' : (0 : ℚ) < scale (-e) := by exact_mod_cast scale_pos (-e)
  refine ⟨nearestEven (x.num * scale (-e)) (x.den * scale e), ?_, ?_⟩
  · rw [round, if_neg (Rat.num_ne_zero.mpr hx), ← scale_div_scale_neg, mul_div_assoc']
    simp only [← he, Rat.mkRat_eq_div]
    push_cast
    rfl
  · have hd : 0 < x.den * scale e := Nat.mul_pos x.den_pos (scale_pos e)
    convert abs_nearestEven_sub_le (x.num * scale (-e)) hd using 3
    rw [← scale_div_scale_neg]
    nth_rewrite 1 [← Rat.num_div_den x]
    push_cast
    have hden : (x.den : ℚ) ≠ 0 := by exact_mod_cast x.den_ne_zero
    field_simp

theorem abs_round_sub_le (hx : x ≠ 0) : |round x - x| ≤ 2 ^ lastPlace x / 2 := by
  obtain ⟨m, hm, hle⟩ := round_eq hx
  have hpos := two_zpow_pos (lastPlace x)
  have heq : round x - x = (m - x / 2 ^ lastPlace x) * 2 ^ lastPlace x := by
    rw [hm]
    field_simp
  rw [heq, abs_mul, abs_of_pos hpos]
  nlinarith

theorem round_relative (hx : (2 : ℚ) ^ (-1022 : Int) ≤ |x|) :
    |round x - x| ≤ 2 ^ (-53 : Int) * |x| := by
  have hne : x ≠ 0 := by
    rintro rfl
    rw [abs_zero] at hx
    exact absurd hx (not_le.mpr (two_zpow_pos _))
  obtain ⟨hlow, hhigh⟩ := abs_spec hne
  have hnormal : -1022 ≤ floorLog2 x.num.natAbs x.den := by
    have := (zpow_lt_zpow_iff_right₀ one_lt_two).mp (hx.trans_lt hhigh)
    omega
  have hplace : lastPlace x = floorLog2 x.num.natAbs x.den - 52 := by
    rw [lastPlace]
    omega
  calc |round x - x| ≤ 2 ^ lastPlace x / 2 := abs_round_sub_le hne
    _ = 2 ^ (-53 : Int) * 2 ^ floorLog2 x.num.natAbs x.den := by
      rw [hplace, ← zpow_add₀ two_ne_zero, div_eq_iff two_ne_zero, ← zpow_add_one₀ two_ne_zero]
      congr 1
      omega
    _ ≤ 2 ^ (-53 : Int) * |x| := by gcongr

theorem round_of_bits (hm : |m| < 2 ^ 53) (hk : -1074 ≤ k) :
    round (m * 2 ^ k) = m * 2 ^ k := by
  by_cases hx : (m * 2 ^ k : ℚ) = 0
  · rw [hx, round_zero]
  obtain ⟨hlow, -⟩ := abs_spec hx
  have hpos := two_zpow_pos k
  have hplace : lastPlace (m * 2 ^ k) ≤ k := by
    have hlt : (2 : ℚ) ^ floorLog2 (m * 2 ^ k : ℚ).num.natAbs (m * 2 ^ k : ℚ).den <
        2 ^ (53 + k) := by
      refine hlow.trans_lt ?_
      rw [abs_mul, abs_of_pos hpos, zpow_add₀ two_ne_zero]
      have hm' : |(m : ℚ)| < 2 ^ (53 : Int) := by exact_mod_cast hm
      gcongr
    have := (zpow_lt_zpow_iff_right₀ one_lt_two).mp hlt
    rw [lastPlace]
    omega
  obtain ⟨i, hi, hle⟩ := round_eq hx
  set e := lastPlace (m * 2 ^ k)
  obtain ⟨j, hj⟩ := Int.eq_ofNat_of_zero_le (sub_nonneg.mpr hplace)
  have hkj : (2 : ℚ) ^ k = 2 ^ j * 2 ^ e := by
    rw [← zpow_natCast, ← zpow_add₀ two_ne_zero]
    congr 1
    omega
  -- In units of the last place the number is an integer, and no other is as near.
  have hint : (m * 2 ^ k : ℚ) / 2 ^ e = (m * 2 ^ j : Int) := by
    rw [hkj, ← mul_assoc, mul_div_cancel_right₀ _ (two_zpow_pos e).ne']
    push_cast
    rfl
  rw [hint, ← Int.cast_sub, ← Int.cast_abs] at hle
  have hsame : i = m * 2 ^ j := by
    by_contra hne
    have hone : (1 : ℚ) ≤ (|i - m * 2 ^ j| : Int) := by
      exact_mod_cast Int.one_le_abs (sub_ne_zero.mpr hne)
    linarith
  rw [hi, hsame, hkj]
  push_cast
  ring

theorem round_intCast (hm : |m| < 2 ^ 53) : round m = m := by
  have h := round_of_bits hm (k := 0) (by omega)
  rwa [zpow_zero, mul_one] at h

theorem round_half (hm : |m| < 2 ^ 53) : round (m / 2) = m / 2 := by
  have h := round_of_bits hm (k := -1) (by omega)
  rwa [zpow_neg_one, ← div_eq_mul_inv] at h

/-! ### Several roundings -/

/-- A number that is not negative becomes another by at most `j` roundings. -/
def Near (j : Nat) (x y : ℚ) : Prop :=
  x * (1 - 2 ^ (-53 : Int)) ^ j ≤ y ∧ y ≤ x * (1 + 2 ^ (-53 : Int)) ^ j

namespace Near

variable {i j : Nat} {x' y y' z : ℚ}

theorem low_pos : (0 : ℚ) < 1 - 2 ^ (-53 : Int) := by norm_num

theorem nonneg (h : Near j x y) (hx : 0 ≤ x) : 0 ≤ y :=
  (mul_nonneg hx (pow_nonneg low_pos.le j)).trans h.1

theorem eq_zero (h : Near j 0 y) : y = 0 := by
  obtain ⟨hlow, hhigh⟩ := h
  rw [zero_mul] at hlow hhigh
  exact le_antisymm hhigh hlow

theorem zero_or_le (h : Near j x y) (hx : x = 0 ∨ (2 : ℚ) ^ k ≤ x) :
    y = 0 ∨ (2 : ℚ) ^ (k - j) ≤ y := by
  rcases hx with rfl | hx
  · exact .inl h.eq_zero
  · refine .inr (le_trans ?_ h.1)
    have hhalf : (2 : ℚ)⁻¹ ≤ 1 - 2 ^ (-53 : Int) := by norm_num
    have hpos : 0 ≤ x := (two_zpow_pos k).le.trans hx
    calc (2 : ℚ) ^ (k - j) = 2 ^ k * 2⁻¹ ^ j := by
          rw [zpow_sub₀ two_ne_zero, zpow_natCast, inv_pow, div_eq_mul_inv]
      _ ≤ x * (1 - 2 ^ (-53 : Int)) ^ j := by gcongr

theorem trans (h : Near i x y) (h' : Near j y z) : Near (i + j) x z := by
  have hlow := low_pos.le
  constructor
  · calc x * (1 - 2 ^ (-53 : Int)) ^ (i + j)
        = x * (1 - 2 ^ (-53 : Int)) ^ i * (1 - 2 ^ (-53 : Int)) ^ j := by rw [pow_add, mul_assoc]
      _ ≤ y * (1 - 2 ^ (-53 : Int)) ^ j := mul_le_mul_of_nonneg_right h.1 (pow_nonneg hlow j)
      _ ≤ z := h'.1
  · calc z ≤ y * (1 + 2 ^ (-53 : Int)) ^ j := h'.2
      _ ≤ x * (1 + 2 ^ (-53 : Int)) ^ i * (1 + 2 ^ (-53 : Int)) ^ j :=
        mul_le_mul_of_nonneg_right h.2 (by positivity)
      _ = x * (1 + 2 ^ (-53 : Int)) ^ (i + j) := by rw [pow_add, mul_assoc]

theorem add (h : Near j x y) (h' : Near j x' y') : Near j (x + x') (y + y') := by
  constructor
  · rw [add_mul]
    exact add_le_add h.1 h'.1
  · rw [add_mul]
    exact add_le_add h.2 h'.2

theorem sq (h : Near j x y) (hx : 0 ≤ x) : Near (j + j) (x ^ 2) (y ^ 2) := by
  have hy := h.nonneg hx
  constructor
  · rw [pow_add, ← pow_two, ← mul_pow]
    exact pow_le_pow_left₀ (mul_nonneg hx (pow_nonneg low_pos.le j)) h.1 2
  · rw [pow_add, ← pow_two, ← mul_pow]
    exact pow_le_pow_left₀ hy h.2 2

end Near

/-- One rounding of a number that is not tiny. -/
theorem near_round (hx : x = 0 ∨ (2 : ℚ) ^ (-1022 : Int) ≤ |x|) : Near 1 |x| |round x| := by
  rcases hx with rfl | hx
  · simp [Near]
  · obtain ⟨hlow, hhigh⟩ := abs_le.mp ((abs_abs_sub_abs_le_abs_sub _ _).trans (round_relative hx))
    simp only [Near, pow_one]
    constructor <;> linarith

theorem near_round_of_nonneg (hpos : 0 ≤ x) (hx : x = 0 ∨ (2 : ℚ) ^ (-1022 : Int) ≤ x) :
    Near 1 x (round x) := by
  rcases hx with rfl | hx
  · simp [Near]
  · obtain ⟨hlow, hhigh⟩ := abs_le.mp (round_relative (hx.trans (le_abs_self x)))
    rw [abs_of_nonneg hpos] at hlow hhigh
    simp only [Near, pow_one]
    constructor <;> linarith

end IconPainter.Binary64
