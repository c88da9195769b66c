import Mathlib.Tactic.Ring
import Mathlib.Tactic.SplitIfs
import IconPainter.Proofs.Raster.Layers

/-! # When painting crashes

No mark of the icon has a fault, so painting it only crashes where the raster
cannot be allocated. Else the icon is as large as was asked for.
-/

namespace IconPainter

variable {size : UInt32} {r : Raster}

namespace Raster

theorem allocate_eq_ok_iff {width height : UInt32} :
    allocate width height = .ok r ↔ byteCount width height < 2 ^ 63 ∧ r = clear width height := by
  unfold allocate
  split_ifs with hsize hcapacity
  · simp only [false_iff]
    simp only [UInt64.size] at hsize
    omega
  · simp only [false_iff]
    simp only [UInt64.size] at hcapacity
    omega
  · simp only [UInt64.size] at hcapacity
    simp only [Except.ok.injEq, eq_comm (a := r)]
    exact ⟨fun h => ⟨by omega, h⟩, And.right⟩

end Raster

namespace Drawing

theorem crash?_crab : ∀ m ∈ crab, m.crash? = none := by decide +kernel

theorem paint_eq_ok_iff : paint size = .ok r ↔
    4 * size.toNat ^ 2 < 2 ^ 63 ∧ r = ((Raster.clear size size).attemptAll crab).1 := by
  have hcount : Raster.byteCount size size = 4 * size.toNat ^ 2 := by
    rw [Raster.byteCount]
    ring
  rw [← hcount]
  unfold paint
  split
  · rename_i crash hcrash
    simp only [reduceCtorEq, false_iff]
    rintro ⟨hsize, -⟩
    cases hcrash.symm.trans (Raster.allocate_eq_ok_iff.mpr ⟨hsize, rfl⟩)
  · rename_i allocated hallocated
    obtain ⟨hsize, rfl⟩ := Raster.allocate_eq_ok_iff.mp hallocated
    rw [Raster.drawAll_eq_ok _ crash?_crab, Except.ok.injEq]
    exact ⟨fun h => ⟨hsize, h.symm⟩, fun h => h.2.symm⟩

theorem exists_paint_eq_ok_iff : (∃ r, paint size = .ok r) ↔ 4 * size.toNat ^ 2 < 2 ^ 63 := by
  simp only [paint_eq_ok_iff, exists_and_left, exists_eq, and_true]

theorem size_of_paint (h : paint size = .ok r) : r.width = size ∧ r.height = size := by
  rw [(paint_eq_ok_iff.mp h).2]
  exact (Raster.clear size size).size_attemptAll crab

end Drawing

end IconPainter
