import IconPainter.Drawing
import IconPainter.Proofs.Job.Destination
import IconPainter.Proofs.Path.Staging

/-! # Spellings of a job

Jobs are the same if they differ in the spelling of the directory only. Then the
icon is the same, and it goes to the same place, is staged in the same place and
is said to go to the same place, also where the directory is not UTF-8 or has
backslashes, which are told as slashes.
-/

namespace IconPainter.Job

open Delivery

variable {a b : Job}

namespace Same

variable (h : a.Same b)
include h

theorem size : a.size = b.size := h.1

theorem directory : a.directory.Same b.directory := h.2.1

theorem fileName : a.fileName = b.fileName := h.2.2

theorem destination : a.destination.Same b.destination := by
  rw [Job.destination, Job.destination, h.fileName]
  exact h.directory.join _

theorem destinationText :
    (Path.ofString a.destinationText).Same (Path.ofString b.destinationText) := by
  by_cases hdir : a.directory.bytes = []
  · rw [destinationText_eq_told, destinationText_eq_told, hdir,
      h.directory.bytes_eq_nil_iff.mp hdir, h.fileName]
    exact .refl _
  · have htold := piecewise_told.same h.directory
    rw [Path.Same, components_destinationText_told hdir,
      components_destinationText_told (mt h.directory.bytes_eq_nil_iff.mpr hdir), h.fileName]
    exact congrArg (· ++ _) htold

end Same

/-- To be the same job is an equivalence. The same jobs paint the same icon, and put it, stage it
and say that it goes to the same place. -/
theorem same_congruence : Equivalence Job.Same ∧ ∀ a b : Job, a.Same b →
    a.destination.Same b.destination ∧
      (stagingPath a.destination).Same (stagingPath b.destination) ∧
      (Path.ofString a.destinationText).Same (Path.ofString b.destinationText) ∧
      Drawing.paint a.size = Drawing.paint b.size := by
  refine ⟨⟨Same.refl, Same.symm, Same.trans⟩, fun a b h => ?_⟩
  refine ⟨h.destination, ?_, h.destinationText, ?_⟩
  · exact same_stagingPath_iff.mpr h.destination
  · rw [h.size]

/-- Two spellings of a directory that ends in a character broken off and has a backslash, which
begins a piece where it is told. -/
theorem same_congruence_spelt :
    let name : Bytes := Bytes.ofString ".\\x" ++ [0xE2, 0x82]
    let a : Job := ⟨1, ⟨name ++ Bytes.ofString "//\\y/."⟩, "icon.png"⟩
    let b : Job := ⟨1, ⟨name ++ Bytes.ofString "/\\y"⟩, "icon.png"⟩
    a.Same b ∧ a.destinationText = "./x\uFFFD///y/./icon.png" ∧
      b.destinationText = "./x\uFFFD//y/icon.png" ∧
      (Path.ofString a.destinationText).Same (Path.ofString b.destinationText) ∧
      a.destination.Same b.destination ∧
      (stagingPath a.destination).Same (stagingPath b.destination) := by
  intro name a b
  have h : a.Same b := by decide +kernel
  obtain ⟨hdestination, hstaging, htext, -⟩ := same_congruence.2 a b h
  exact ⟨h, by decide +kernel, by decide +kernel, htext, hdestination, hstaging⟩

end IconPainter.Job
