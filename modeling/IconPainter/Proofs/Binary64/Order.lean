import IconPainter.Proofs.Binary64.Rounding

/-! # Rounding and order

Rounding treats a number and its negative alike, and it never turns two numbers
around. Counted in its last place, a number that is at most some whole number is
rounded to at most that one. So numbers with the same last place keep their order;
where the last places differ, a power of two stands between the numbers and, as a
whole number in both counts, between what they are rounded to.
-/

namespace IconPainter.Binary64

variable {n i : Int} {d : Nat} {x y : ℚ}

/-! ### Negatives -/

theorem nearestEven_neg (n : Int) (hd : 0 < d) : nearestEven (-n) d = -nearestEven n d := by
  have hneg : 0 ≤ n % d := Int.emod_nonneg n (by omega)
  have hlt : n % d < d := Int.emod_lt_of_pos n (by omega)
  simp only [nearestEven, Int.neg_ediv, Int.neg_emod, Int.natAbs_natCast,
    Int.sign_eq_one_of_pos (Int.natCast_pos.mpr hd)]
  by_cases hdvd : (d : Int) ∣ n
  · have hzero : n % d = 0 := Int.emod_eq_zero_of_dvd hdvd
    simp only [hdvd, if_true, hzero]
    split_ifs <;> omega
  · have hne : n % d ≠ 0 := fun h => hdvd (Int.dvd_of_emod_eq_zero h)
    simp only [hdvd, if_false]
    split_ifs <;> omega

theorem lastPlace_neg (x : ℚ) : lastPlace (-x) = lastPlace x := by
  rw [lastPlace, lastPlace, Rat.num_neg_eq_neg_num, Rat.den_neg_eq_den, Int.natAbs_neg]

theorem round_neg (x : ℚ) : round (-x) = -round x := by
  by_cases hx : x.num = 0
  · rw [round, round, Rat.num_neg_eq_neg_num, hx, if_pos neg_zero, if_pos rfl, neg_zero]
  · have hd : 0 < x.den * scale (lastPlace x) := Nat.mul_pos x.den_pos (scale_pos _)
    rw [round, round, Rat.num_neg_eq_neg_num, Rat.den_neg_eq_den,
      if_neg (neg_ne_zero.mpr hx), if_neg hx, lastPlace_neg]
    simp only [Int.neg_mul, nearestEven_neg _ hd, Rat.neg_mkRat]

/-! ### Order -/

theorem round_le (h : x ≤ i * 2 ^ lastPlace x) : round x ≤ i * 2 ^ lastPlace x := by
  by_cases hx : x = 0
  · rw [hx, round_zero]
    rwa [hx] at h
  obtain ⟨m, hm, hle⟩ := round_eq hx
  have hpos := two_zpow_pos (lastPlace x)
  have hquotient : x / 2 ^ lastPlace x ≤ i := (div_le_iff₀ hpos).mpr h
  have hclose : (m : ℚ) < (i + 1 : Int) := by
    push_cast
    linarith [(abs_le.mp hle).2]
  have hint : m ≤ i := Int.lt_add_one_iff.mp (by exact_mod_cast hclose)
  rw [hm]
  have hint' : (m : ℚ) ≤ i := by exact_mod_cast hint
  gcongr

theorem le_round (h : i * 2 ^ lastPlace x ≤ x) : i * 2 ^ lastPlace x ≤ round x := by
  have hneg : -x ≤ (-i : Int) * 2 ^ lastPlace (-x) := by
    rw [lastPlace_neg]
    push_cast
    linarith
  have hround := round_le hneg
  rw [lastPlace_neg, round_neg] at hround
  push_cast at hround
  linarith

theorem round_nonneg (hx : 0 ≤ x) : 0 ≤ round x := by
  have h : ((0 : Int) : ℚ) * 2 ^ lastPlace x ≤ x := by simpa using hx
  simpa using le_round h

theorem abs_round (x : ℚ) : |round x| = round |x| := by
  rcases le_total 0 x with hx | hx
  · rw [abs_of_nonneg hx, abs_of_nonneg (round_nonneg hx)]
  · have hneg := round_nonneg (neg_nonneg.mpr hx)
    rw [abs_of_nonpos hx, round_neg, abs_of_nonpos]
    rwa [round_neg, neg_nonneg] at hneg

theorem round_le_round_of_eq (hx : x ≠ 0) (hy : y ≠ 0) (h : x ≤ y)
    (hplace : lastPlace x = lastPlace y) : round x ≤ round y := by
  obtain ⟨m, hm, hle⟩ := round_eq hx
  obtain ⟨m', hm', hle'⟩ := round_eq hy
  have hpos := two_zpow_pos (lastPlace y)
  rw [hplace] at hm hle
  have hquotient : x / 2 ^ lastPlace y ≤ y / 2 ^ lastPlace y := by gcongr
  by_contra hlt
  -- Two different whole numbers can both be nearest only to what is half-way between them.
  have hint : m' + 1 ≤ m := by
    have hcast : (m' : ℚ) < m := by
      rw [hm, hm', not_le] at hlt
      exact lt_of_mul_lt_mul_right hlt hpos.le
    exact_mod_cast hcast
  have hint' : (m' : ℚ) + 1 ≤ m := by exact_mod_cast hint
  have heq : x / 2 ^ lastPlace y = y / 2 ^ lastPlace y := by
    linarith [(abs_le.mp hle).2, (abs_le.mp hle').1]
  rw [div_left_inj' hpos.ne'] at heq
  exact hlt (heq ▸ le_rfl)

theorem round_le_round_of_lt (hx : 0 < x) (hy : 0 < y) (hplace : lastPlace x < lastPlace y) :
    round x ≤ round y := by
  obtain ⟨-, hxhigh⟩ := abs_spec hx.ne'
  obtain ⟨hylow, -⟩ := abs_spec hy.ne'
  rw [abs_of_pos hx] at hxhigh
  rw [abs_of_pos hy] at hylow
  set k := floorLog2 y.num.natAbs y.den with hk
  have hplaces : floorLog2 x.num.natAbs x.den + 1 ≤ k ∧ lastPlace x ≤ k ∧ lastPlace y ≤ k := by
    simp only [lastPlace, ← hk] at hplace ⊢
    omega
  obtain ⟨hlog, hxk, hyk⟩ := hplaces
  have hwhole {e : Int} (he : e ≤ k) : (2 : ℚ) ^ k = (2 ^ (k - e).toNat : Int) * 2 ^ e := by
    push_cast
    rw [← zpow_natCast, ← zpow_add₀ two_ne_zero]
    congr 1
    omega
  have hbelow : x ≤ 2 ^ k := hxhigh.le.trans (zpow_le_zpow_right₀ one_le_two hlog)
  calc round x ≤ (2 ^ (k - lastPlace x).toNat : Int) * 2 ^ lastPlace x :=
        round_le (hwhole hxk ▸ hbelow)
    _ = (2 ^ (k - lastPlace y).toNat : Int) * 2 ^ lastPlace y := by
        rw [← hwhole hxk, ← hwhole hyk]
    _ ≤ round y := le_round (hwhole hyk ▸ hylow)

theorem lastPlace_le (hx : 0 < x) (h : x ≤ y) : lastPlace x ≤ lastPlace y := by
  obtain ⟨hlow, -⟩ := abs_spec hx.ne'
  obtain ⟨-, hhigh⟩ := abs_spec (hx.trans_le h).ne'
  rw [abs_of_pos hx] at hlow
  rw [abs_of_pos (hx.trans_le h)] at hhigh
  have := (zpow_lt_zpow_iff_right₀ one_lt_two).mp (hlow.trans_lt (h.trans_lt hhigh))
  rw [lastPlace, lastPlace]
  omega

/-- Rounding keeps the order of numbers that are not negative. -/
theorem round_le_round (hx : 0 ≤ x) (h : x ≤ y) : round x ≤ round y := by
  rcases hx.eq_or_lt with rfl | hx
  · rw [round_zero]
    exact round_nonneg h
  · rcases (lastPlace_le hx h).eq_or_lt with hplace | hplace
    · exact round_le_round_of_eq hx.ne' (hx.trans_le h).ne' h hplace
    · exact round_le_round_of_lt hx (hx.trans_le h) hplace

end IconPainter.Binary64
