import Mathlib.Data.List.Nodup
import IconPainter.Proofs.Delivery.Cleanup
import IconPainter.Proofs.Job.Failure

/-! # What a job tells

A job logs four events, each right after the step that it is about, so the log goes
as far as the job came. Only a picture that could not be delivered may leave a
warning after them.
-/

namespace IconPainter

open Delivery

variable {codec : Codec} {image : Raster} {d : Disk} {p : Path}

namespace Job

variable {j : Job}

/-- What a job tells if all goes well, in this order. -/
def tale (j : Job) (image : Raster) : List Event :=
  [rendered image, directoryReady j.directory, encoded (stagingPath j.destination),
    wrote j.destination]

/-- What is seen of the log of a job up to a level, without the spans. -/
def seen (codec : Codec) (j : Job) (d : Disk) (l : Level) : List Event :=
  ((Filter.upTo l).apply ((j.work codec).run d).events).map Event.bare

/-- How many events of its tale a job tells and what it warns of, with the steps that went well
and with its end. -/
inductive Tells (codec : Codec) (j : Job) (image : Raster) (d : Disk) :
    Nat → List Event → Except Failure Path → Prop where

  | unprepared {f : Failure} : ((prepareDirectory j.directory).run d).value = .error f →
      Tells codec j image d 1 [] (.error f)

  | unstored {f : Failure} {warnings : List Event} :
      ((prepareDirectory j.directory).run d).value = .ok () →
      ((writePicture codec image j.destination).run (d.prepared j.directory)).value = .error f →
      ¬ (d.prepared j.directory).Stores codec image (stagingPath j.destination) →
      Warns j.destination warnings → Tells codec j image d 2 warnings (.error f)

  | unmoved {f : Failure} {warnings : List Event} :
      ((prepareDirectory j.directory).run d).value = .ok () →
      ((writePicture codec image j.destination).run (d.prepared j.directory)).value = .error f →
      (d.prepared j.directory).Stores codec image (stagingPath j.destination) →
      Warns j.destination warnings → Tells codec j image d 3 warnings (.error f)

  | delivered : ((prepareDirectory j.directory).run d).value = .ok () →
      (d.prepared j.directory).Stores codec image (stagingPath j.destination) →
      Tells codec j image d 4 [] (.ok j.destination)

theorem Tells.steps {n : Nat} {warnings : List Event} {r : Except Failure Path}
    (h : Tells codec j image d n warnings r) : 1 ≤ n ∧ Warns j.destination warnings ∧
      (1 < n ↔ ((prepareDirectory j.directory).run d).value = .ok ()) ∧
      (2 < n ↔ ((prepareDirectory j.directory).run d).value = .ok () ∧
        (d.prepared j.directory).Stores codec image (stagingPath j.destination)) ∧
      (3 < n ↔ ∃ p, r = .ok p) ∧
      (warnings ≠ [] → ((prepareDirectory j.directory).run d).value = .ok () ∧
        ∃ f, ((writePicture codec image j.destination).run (d.prepared j.directory)).value =
          .error f) := by
  cases h with
  | unprepared hprepare => simp [hprepare, Warns]
  | unstored hprepare hwrite hstores hwarns => simp [hprepare, hwrite, hstores, hwarns]
  | unmoved hprepare hwrite hstores hwarns => simp [hprepare, hwrite, hstores, hwarns]
  | delivered hprepare hstores => simp [hprepare, hstores, Warns]

theorem tells_deliver (codec : Codec) (j : Job) (image : Raster) (d : Disk) : ∃ n warnings,
    Tells codec j image d n warnings ((j.deliver codec image).run d).value ∧
      (j.deliver codec image).told d = (j.tale image).take n ++ warnings := by
  simp only [deliver, Script.told_within, Script.run_within, Script.told_note, Script.told_bind,
    Script.run, Script.value_run_bind]
  rcases told_prepareDirectory j.directory d with ⟨hready, htold⟩ | ⟨⟨f, hv⟩, htold⟩
  · simp only [hready, htold, Script.told_bind, Script.value_run_bind]
    rcases told_writePicture codec image j.destination
        ((prepareDirectory j.directory).run d).disk with
      ⟨hstores, hv, htold⟩ | ⟨f, warnings, hv, hwarns, ⟨hstores, htold⟩ | ⟨hstores, htold⟩⟩
    · simp only [hv, htold]
      exact ⟨4, [], .delivered hready hstores, rfl⟩
    · simp only [hv, htold, Script.told_done, List.append_nil]
      exact ⟨3, warnings, .unmoved hready hv hstores hwarns, rfl⟩
    · simp only [hv, htold, Script.told_done, List.append_nil]
      exact ⟨2, warnings, .unstored hready hv hstores hwarns, rfl⟩
  · simp only [hv, htold]
    exact ⟨1, [], .unprepared hv, rfl⟩

theorem tells_work (codec : Codec) (h : Drawing.paint j.size = .ok image) (d : Disk) :
    ∃ n warnings r, ((j.work codec).run d).value = .ok r ∧
      Tells codec j image d n warnings r ∧
        (j.work codec).told d = (j.tale image).take n ++ warnings := by
  obtain ⟨n, warnings, htells, htold⟩ := tells_deliver codec j image d
  simp only [work, h, Script.value_run_bind, Script.told_bind,
    Script.told_done, List.append_nil, Script.run]
  exact ⟨n, warnings, _, rfl, htells, htold⟩

theorem nodup_tale (j : Job) (image : Raster) : (j.tale image).Nodup := by
  simp [tale, rendered, directoryReady, encoded, wrote, event]

/-- No warning is of the tale, so an event is told exactly if the tale is told beyond it. -/
theorem getElem_tale_mem_iff {n k : Nat} {warnings : List Event} (hw : Warns p warnings)
    (hk : k < (j.tale image).length) :
    (j.tale image)[k] ∈ (j.tale image).take n ++ warnings ↔ k < n := by
  -- The level tells a warning from all events of the tale.
  have hno : (j.tale image)[k] ∉ warnings := by
    have hlevel : ∀ e ∈ j.tale image, e.level ≠ .warn := by
      simp [tale, rendered, directoryReady, encoded, wrote, event]
    intro hmem
    rcases hw with rfl | ⟨cause, rfl⟩
    · contradiction
    · exact hlevel _ (List.getElem_mem hk) (by rw [List.mem_singleton.mp hmem]; rfl)
  rw [List.mem_append, or_iff_left hno, List.mem_take_iff_getElem]
  constructor
  · rintro ⟨i, hi, heq⟩
    have := (nodup_tale j image).getElem_inj_iff.mp heq
    omega
  · exact fun h => ⟨k, by omega, rfl⟩

theorem tale_subset_iff {n : Nat} {warnings : List Event} (hw : Warns p warnings) :
    j.tale image ⊆ (j.tale image).take n ++ warnings ↔ 3 < n := by
  constructor
  · intro hall
    exact (getElem_tale_mem_iff (k := 3) hw (by simp [tale])).mp (hall (List.getElem_mem _))
  · intro hn e he
    rw [List.take_of_length_le hn]
    exact List.mem_append_left _ he

theorem seen_eq (codec : Codec) (j : Job) (d : Disk) (l : Level) :
    j.seen codec d l = ((j.work codec).told d).filter (·.level ≤ l) :=
  Filter.map_bare_apply_upTo l _

theorem seen_trace (codec : Codec) (j : Job) (d : Disk) :
    j.seen codec d .trace = (j.work codec).told d := by
  simp [seen_eq, Level.le_trace]

theorem exists_paint_of_not_crash (h : ∀ crash, ((j.work codec).run d).value ≠ .error crash) :
    ∃ image, Drawing.paint j.size = .ok image := by
  rw [Drawing.exists_paint_eq_ok_iff]
  have := (j.crash_iff codec d).not.mp fun ⟨crash, hcrash⟩ => h crash hcrash
  omega

theorem seen_eq_filter (codec : Codec) (j : Job) (d : Disk) (l : Level) :
    j.seen codec d l = (j.seen codec d .trace).filter (·.level ≤ l) := by
  rw [seen_trace, seen_eq]

/-- The log tells the truth: of a job that does not crash it tells the tale as far as the job came,
event by event, and it warns at most of a staging file after a failed delivery. Up to a lower level
the same is seen but for what is more verbose. -/
theorem seen_truthful (codec : Codec) (j : Job) (d : Disk)
    (h : ∀ crash, ((j.work codec).run d).value ≠ .error crash) :
    ∃ image n warnings, Drawing.paint j.size = .ok image ∧
      j.seen codec d .trace = (j.tale image).take n ++ warnings ∧
      1 ≤ n ∧ Warns j.destination warnings ∧
      (directoryReady j.directory ∈ j.seen codec d .trace ↔
        ((prepareDirectory j.directory).run d).value = .ok ()) ∧
      (encoded (stagingPath j.destination) ∈ j.seen codec d .trace ↔
        ((prepareDirectory j.directory).run d).value = .ok () ∧
          (d.prepared j.directory).Stores codec image (stagingPath j.destination)) ∧
      (j.tale image ⊆ j.seen codec d .trace ↔ ∃ p, ((j.work codec).run d).value = .ok (.ok p)) ∧
      (warnings ≠ [] → ((prepareDirectory j.directory).run d).value = .ok () ∧
        ∃ f, ((writePicture codec image j.destination).run (d.prepared j.directory)).value =
          .error f) ∧
      ∀ l, j.seen codec d l = (j.seen codec d .trace).filter (·.level ≤ l) := by
  obtain ⟨image, hpaint⟩ := exists_paint_of_not_crash h
  obtain ⟨n, warnings, r, hv, htells, htold⟩ := tells_work codec hpaint d
  obtain ⟨hn, hwarns, hprepared, hstored, hdelivered, hfailed⟩ := htells.steps
  have hseen : j.seen codec d .trace = (j.tale image).take n ++ warnings :=
    (seen_trace codec j d).trans htold
  refine ⟨image, n, warnings, hpaint, hseen, hn, hwarns, ?_, ?_, ?_, hfailed,
    seen_eq_filter codec j d⟩
  · rw [hseen, ← hprepared]
    exact getElem_tale_mem_iff (k := 1) hwarns (by simp [tale])
  · rw [hseen, ← hstored]
    exact getElem_tale_mem_iff (k := 2) hwarns (by simp [tale])
  · simp only [hseen, hv, Except.ok.injEq, ← hdelivered]
    exact tale_subset_iff hwarns

/-- Where a directory stands in the place of the staging file, a job comes as far as the directory
of its icon, and up to warnings only the directory in the way is seen. -/
theorem seen_truthful_obstructed :
    let j : Job := ⟨1, .ofString ".", "a.png"⟩
    (∀ crash, ((j.work Png.codec).run .obstructed).value ≠ .error crash) ∧
      directoryReady j.directory ∈ j.seen Png.codec .obstructed .trace ∧
      encoded (stagingPath j.destination) ∉ j.seen Png.codec .obstructed .trace ∧
      j.seen Png.codec .obstructed .warn =
        [leftBehind (stagingPath j.destination) .isDirectory] := by
  intro j
  have hvalue : ((j.work Png.codec).run .obstructed).value =
      .ok (.error (.create (stagingPath j.destination) .isDirectory)) := by decide +kernel
  have hcrash : ∀ crash, ((j.work Png.codec).run .obstructed).value ≠ .error crash := by
    intro crash
    rw [hvalue]
    exact fun h => by cases h
  have hmade : ((prepareDirectory j.directory).run .obstructed).value = .ok () := by decide +kernel
  have hblocked : (Disk.obstructed.prepared j.directory).create (stagingPath j.destination) =
      .error .isDirectory := by decide +kernel
  obtain ⟨image, n, warnings, -, -, -, -, hready, hstored, -, -, hlevel⟩ :=
    seen_truthful Png.codec j .obstructed hcrash
  refine ⟨hcrash, hready.mpr hmade, fun h => ?_, ?_⟩
  · obtain ⟨-, file, opened, filled, synced, hopen, -⟩ := hstored.mp h
    cases hblocked.symm.trans hopen
  · rw [hlevel]
    decide +kernel

end Job

end IconPainter
