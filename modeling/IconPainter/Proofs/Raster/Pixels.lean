import IconPainter.Raster.Basic

/-! # Rasters by their pixels

A raster is known by its size and what it has at each position.
-/

namespace IconPainter

variable {r r' : Raster} {x y : Nat} {c : Color}

namespace Raster

theorem exists_pixel? (r : Raster) (hx : x < r.width.toNat) (hy : y < r.height.toNat) :
    ∃ c, r.pixel? x y = some c := by
  have hlt : y * r.width.toNat + x < r.pixels.size := by
    rw [r.size_pixels]
    exact cell_lt hx hy
  exact ⟨r.pixels[y * r.width.toNat + x], by
    rw [pixel?, if_pos ⟨hx, hy⟩, Array.getElem?_eq_getElem hlt]⟩

theorem lt_of_pixel? (h : r.pixel? x y = some c) : x < r.width.toNat ∧ y < r.height.toNat := by
  unfold pixel? at h
  split at h
  · assumption
  · contradiction

theorem pixel?_eq_getElem? (r : Raster) (h : x < r.width.toNat ∧ y < r.height.toNat) :
    r.pixel? x y = r.pixels[y * r.width.toNat + x]? :=
  if_pos h

theorem pixel?_eq_none (r : Raster) (h : ¬ (x < r.width.toNat ∧ y < r.height.toNat)) :
    r.pixel? x y = none :=
  if_neg h

theorem getElem_pixels (r : Raster) {i : Nat} (hi : i < r.pixels.size) :
    r.pixel? (i % r.width.toNat) (i / r.width.toNat) = some r.pixels[i] := by
  have hlt : i < r.width.toNat * r.height.toNat := r.size_pixels ▸ hi
  have hwidth : 0 < r.width.toNat := Nat.pos_of_mul_pos_right (Nat.zero_lt_of_lt hlt)
  rw [pixel?, if_pos ⟨Nat.mod_lt i hwidth, Nat.div_lt_of_lt_mul hlt⟩, Nat.mul_comm,
    Nat.div_add_mod, Array.getElem?_eq_getElem hi]

theorem mem_pixels_iff : c ∈ r.pixels ↔ ∃ x y, r.pixel? x y = some c := by
  constructor
  · intro h
    obtain ⟨i, hi, rfl⟩ := Array.mem_iff_getElem.mp h
    exact ⟨_, _, r.getElem_pixels hi⟩
  · rintro ⟨x, y, h⟩
    rw [pixel?, if_pos (lt_of_pixel? h)] at h
    exact Array.mem_of_getElem? h

theorem ext_pixel? (hwidth : r.width = r'.width) (hheight : r.height = r'.height)
    (h : ∀ x y, x < r.width.toNat → y < r.height.toNat → r.pixel? x y = r'.pixel? x y) :
    r = r' := by
  have hsize : r.pixels.size = r'.pixels.size := by
    rw [r.size_pixels, r'.size_pixels, hwidth, hheight]
  have hpixels : r.pixels = r'.pixels := by
    refine Array.ext hsize fun i hi hi' => Option.some.inj ?_
    have hat := r.getElem_pixels hi
    obtain ⟨hx, hy⟩ := lt_of_pixel? hat
    rw [← hat, ← r'.getElem_pixels hi', h _ _ hx hy, hwidth]
  cases r
  cases r'
  cases hwidth
  cases hheight
  cases hpixels
  rfl

theorem count_congr {p q : Color → Bool} (h : ∀ x y c, r.pixel? x y = some c → (p c ↔ q c)) :
    r.count p = r.count q := by
  refine Array.countP_congr fun c hc => ?_
  obtain ⟨x, y, hat⟩ := mem_pixels_iff.mp hc
  exact h x y c hat

theorem count_set {p : Color → Bool} {ink : Color} (hink : p ink = true)
    (h : r.pixel? x y = some c) (hc : p c = false) : (r.set x y ink).count p = r.count p + 1 := by
  have hin := lt_of_pixel? h
  have hlt : y * r.width.toNat + x < r.pixels.size := by
    rw [r.size_pixels]
    exact cell_lt hin.1 hin.2
  rw [pixel?, if_pos hin, Array.getElem?_eq_getElem hlt, Option.some.injEq] at h
  simp [count, set, hin, Array.setIfInBounds, hlt, Array.countP_set, h, hc, hink]

/-- Each pixel that is painted for the first time counts once. -/
theorem count_paint {p : Color → Bool} {ink : Color} {cells : List (Nat × Nat)}
    (hink : p ink = true) (hnodup : cells.Nodup)
    (h : ∀ cell ∈ cells, ∃ c, r.pixel? cell.1 cell.2 = some c ∧ p c = false) :
    (r.paint cells ink).count p = r.count p + cells.length := by
  induction cells generalizing r with
  | nil => rfl
  | cons cell cells ih =>
    obtain ⟨hnew, hnodup⟩ := List.nodup_cons.mp hnodup
    obtain ⟨c, hc, hpc⟩ := h cell List.mem_cons_self
    have hrest : ∀ cell' ∈ cells, ∃ c, (r.set cell.1 cell.2 ink).pixel? cell'.1 cell'.2 = some c ∧
        p c = false := by
      intro cell' hmem
      have hne : ¬ (cell'.1 = cell.1 ∧ cell'.2 = cell.2) := fun heq =>
        hnew (Prod.ext heq.1 heq.2 ▸ hmem)
      rw [pixel?_set, if_neg hne]
      exact h cell' (List.mem_cons_of_mem cell hmem)
    rw [paint, List.foldl_cons, ← paint, ih hnodup hrest, count_set hink hc hpc, List.length_cons,
      Nat.add_assoc, Nat.add_comm 1]

@[simp] theorem width_clear (width height : UInt32) : (clear width height).width = width := rfl

@[simp] theorem height_clear (width height : UInt32) : (clear width height).height = height := rfl

theorem pixel?_clear {width height : UInt32} (hx : x < width.toNat) (hy : y < height.toNat) :
    (clear width height).pixel? x y = some Color.clear := by
  obtain ⟨c, hc⟩ := (clear width height).exists_pixel? hx hy
  have hmem := mem_pixels_iff.mpr ⟨x, y, hc⟩
  rw [hc, Array.eq_of_mem_replicate hmem]

end Raster

end IconPainter
