import IconPainter.Png.Stored
import IconPainter.Proofs.Delivery.Preparation
import IconPainter.Proofs.Delivery.Telling

/-! # What a failed delivery leaves

After a failure the staging path names nothing, unless it named a directory all
along. Such a directory keeps the picture from being stored and cannot be taken
away, and it alone is reported.
-/

namespace IconPainter

open IconPainter.Path Delivery

/-- The event reports a staging file that was left behind. -/
def Event.IsLeftBehind (ev : Event) : Prop :=
  ev.level = .warn ∧ ev.message = "could not remove staging file"

namespace Disk

/-- What the path names may be taken away, unless it is a directory. -/
def Clearable (d : Disk) (p : Path) : Prop :=
  ∀ s, d.named? p = some s → d.HasLeaf s → d.MayChange s.directory

/-- Nothing stands at the entry that the path names, if it names one. -/
def NamesNothing (d : Disk) (p : Path) : Prop := ∀ s, d.named? p = some s → d.at? s = none

variable {d e : Disk} {t s : Entry} {file id : NodeId} {c name : Bytes} {p : Path}
  {init : List Step}

theorem NamesNothing.not_namesDirectory (h : d.NamesNothing p) : ¬ d.NamesDirectory p := by
  rintro ⟨s, k, hs, hk, -⟩
  simp [kindAt?, h s hs] at hk

theorem not_namesNothing_of_resolve (hs : p.steps = init ++ [.name name])
    (h : d.resolve p = .ok id) : ¬ d.NamesNothing p := by
  obtain ⟨hv, mid, es, n, found, hn, hw, hop⟩ := exists_hop_of_resolve hs h
  obtain ⟨hsearch, hname, hr⟩ := hop_name_eq_ok_iff.mp hop
  have hnamed : d.named? p = some ⟨mid, name⟩ :=
    named?_iff_approaches.mpr ⟨hname, es, n, hv, hn, hsearch, init, hs, hw⟩
  intro hnothing
  cases (hnothing _ hnamed).symm.trans (reach?_eq_some_iff.mp hr).1

theorem not_namesNothing_of_isThere (h : d.isThere (stagingPath p) = true) :
    ¬ d.NamesNothing (stagingPath p) := by
  obtain ⟨q, name, hn, hs⟩ := exists_stagingPath_eq_join p
  unfold isThere stat at h
  split at h
  · contradiction
  · rename_i hres
    exact not_namesNothing_of_resolve (hs ▸ steps_join hn) hres

theorem NamesDirectory.isThere (h : d.NamesDirectory p) : d.isThere p = true := by
  obtain ⟨s, k, hs, hk, hd⟩ := h
  obtain ⟨id, hat, hk⟩ := kindAt?_eq_some_iff.mp hk
  obtain ⟨node, hn, -⟩ := Option.map_eq_some_iff.mp hk
  simp only [Disk.isThere, stat, resolve_of_named? hs hat ⟨k, hk, hd⟩, hn]
  rfl

theorem namesNothing_eraseEntry (hw : d.WellFormed) (hs : d.named? p = some s) :
    (d.eraseEntry s.directory s.name).NamesNothing p := by
  intro x hx
  obtain ⟨hn, es, slash, hf⟩ := named?_eq_some_iff.mp hx
  have hx' : d.named? p = some x :=
    named?_eq_some_iff.mpr ⟨hn, es, slash, (hf.of_eraseEntry hw (.inr rfl)).1⟩
  cases hs.symm.trans hx'
  exact at?_eraseEntry_self d s

/-! ### While a picture is stored -/

namespace Written

theorem clearable (hw : d.WellFormed) (h : d.Written t file c e) (hc : d.Clearable p) :
    e.Clearable p := by
  intro s hs hleaf
  rw [h.named?_eq hw] at hs
  rw [h.mayChange_iff]
  rcases h.hasLeaf_cases hw hleaf with hleaf | ⟨rfl, hnone⟩
  · exact hc s hs hleaf
  · rcases h.was with ⟨-, -, hchange⟩ | ⟨hat, -⟩
    · exact hchange
    · cases hnone.symm.trans hat

theorem not_namesDirectory (hw : d.WellFormed) (h : d.Written t file c e)
    (ht : d.target? (stagingPath p) = some t) : ¬ e.NamesDirectory (stagingPath p) := by
  rintro ⟨s, k, hs, hk, hd⟩
  rw [h.named?_eq hw] at hs
  have hat : e.at? s ≠ some file := fun hat => by
    cases (h.kindAt?_self hat).symm.trans hk
    contradiction
  rw [h.kindAt?_ne hat] at hk
  obtain ⟨es, n, -, ⟨rfl, -⟩ | ⟨target, es', n', ⟨⟨id, hr⟩, -⟩, -⟩⟩ :=
    target?_cases hw ht (names_stagingPath_iff.mpr hs)
  · cases hd.symm.trans (h.kindAt?_was k hk).1
  · obtain ⟨hat, k', hk', htarget⟩ := reach?_eq_some_iff.mp hr
    rw [kindAt?_of_at? hat, hk'] at hk
    cases hk
    cases k <;> contradiction

end Written

end Disk

/-! ### Runs -/

open Disk

variable {codec : Codec} {image : Raster} {d e : Disk} {p s : Path} {file : FileId}

theorem Storing.clearable (hw : d.WellFormed) (h : Storing d s e) (hc : d.Clearable s) :
    e.Clearable s := by
  rcases h with rfl | ⟨t, file, c, -, hwr⟩
  · exact hc
  · exact hwr.clearable hw hc

theorem Storing.eq_of_namesDirectory (hw : d.WellFormed) (h : Storing d (stagingPath p) e)
    (hd : e.NamesDirectory (stagingPath p)) : e = d := by
  rcases h with rfl | ⟨t, file, c, ht, hwr⟩
  · rfl
  · exact (hwr.not_namesDirectory hw ht hd).elim

theorem Storing.wellFormed (hw : d.WellFormed) (h : Storing d s e) : e.WellFormed := by
  rcases h with rfl | ⟨t, file, c, -, hwr⟩
  · exact hw
  · exact hwr.wellFormed

/-- A directory is left behind and reported; anything else is gone. -/
theorem run_cleanUp_of_clearable (hw : d.WellFormed) (hc : d.Clearable (stagingPath p))
    (f : Failure) :
    let run := (cleanUp (stagingPath p) f).run d
    (d.NamesDirectory (stagingPath p) ∧ run.disk = d ∧
        ∃ cause, run.events = [leftBehind (stagingPath p) cause]) ∨
      (run.disk.NamesNothing (stagingPath p) ∧ run.events = []) := by
  cases hr : d.remove (stagingPath p) with
  | ok d' =>
    simp only [cleanUp, Script.run, Disk.answer, hr, Disk.settle, and_true]
    obtain ⟨hnames, -, -⟩ := removes_of_remove hr
    exact .inr (namesNothing_eraseEntry hw hnames.1)
  | error cause =>
    simp only [cleanUp, Script.run, Disk.answer, hr, Disk.settle]
    by_cases hdir : d.NamesDirectory (stagingPath p)
    · rw [hdir.isThere]
      exact .inl ⟨hdir, rfl, cause, rfl⟩
    -- What is no directory could have been taken away, so there is nothing.
    · have hnothing : d.NamesNothing (stagingPath p) := by
        intro s hs
        rcases (not_namesDirectory_iff hs).mp hdir with hnone | hleaf
        · exact hw.kindAt?_eq_none_iff.mp hnone
        · have hremoves : d.Removes (stagingPath p) _ :=
            .mk (names_stagingPath_iff.mpr hs) hleaf (hc s hs hleaf)
          cases hr.symm.trans hremoves.remove_eq
      cases hthere : d.isThere (stagingPath p) with
      | true => exact (not_namesNothing_of_isThere hthere hnothing).elim
      | false => exact .inr ⟨hnothing, rfl⟩

theorem not_isLeftBehind_of_mem_store {ev : Event}
    (h : ev ∈ ((store codec image s).run d).events) : ¬ ev.IsLeftBehind := by
  rintro ⟨hlevel, -⟩
  rcases run_store_cases codec image s d with ⟨-, -, hevents⟩ | ⟨-, -, hevents⟩
  · cases List.mem_singleton.mp (hevents ▸ h)
    contradiction
  · simp [hevents] at h

theorem exists_isLeftBehind_within {sp : Span} {before after : List Event}
    (h : ∀ ev ∈ before, ¬ ev.IsLeftBehind) :
    (∃ ev ∈ (before ++ after).map (·.within sp), ev.IsLeftBehind) ↔
      ∃ ev ∈ after, ev.IsLeftBehind := by
  constructor
  · rintro ⟨_, hmap, hev⟩
    obtain ⟨ev, hmem, rfl⟩ := List.mem_map.mp hmap
    rcases List.mem_append.mp hmem with hmem | hmem
    · exact (h ev hmem hev).elim
    · exact ⟨ev, hmem, hev⟩
  · rintro ⟨ev, hmem, hev⟩
    exact ⟨_, List.mem_map_of_mem (List.mem_append_right before hmem), hev⟩

/-- A delivery that fails ends with the clearing away of the staging file, and only that
can report it as left behind. -/
theorem writePicture_cases (codec : Codec) (image : Raster) (p : Path) (hw : d.WellFormed) :
    let run := (writePicture codec image p).run d
    (∃ f e, Storing d (stagingPath p) e ∧ run.value = .error f ∧
        run.disk = ((cleanUp (stagingPath p) f).run e).disk ∧
        ((∃ ev ∈ run.events, ev.IsLeftBehind) ↔
          ∃ ev ∈ ((cleanUp (stagingPath p) f).run e).events, ev.IsLeftBehind)) ∨
      (run.value = .ok () ∧ ¬ ∃ ev ∈ run.events, ev.IsLeftBehind) := by
  obtain ⟨-, hstates⟩ := run_store codec image (stagingPath p) hw
  have hstoring := hstates _ (Script.disk_mem_states_run _ _)
  have hstore : ∀ ev ∈ ((store codec image (stagingPath p)).run d).events, ¬ ev.IsLeftBehind :=
    fun ev => not_isLeftBehind_of_mem_store
  simp only [writePicture, Script.run_within, Script.value_run_bind, Script.disk_run_bind,
    Script.events_run_bind, exists_isLeftBehind_within hstore]
  generalize ((store codec image (stagingPath p)).run d).disk = e at *
  cases ((store codec image (stagingPath p)).run d).value with
  | error f => exact .inl ⟨f, e, hstoring, (run_cleanUp _ f e).1, rfl, Iff.rfl⟩
  | ok u =>
    cases hr : e.rename (stagingPath p) p with
    | error cause =>
      simp only [Script.run, Disk.answer, hr, Disk.settle]
      exact .inl ⟨.move p cause, e, hstoring, (run_cleanUp _ _ e).1, rfl, Iff.rfl⟩
    | ok d' =>
      simp only [Script.run, Disk.answer, hr, Disk.settle, List.mem_singleton, exists_eq_left]
      refine .inr ⟨trivial, ?_⟩
      rintro ⟨hlevel, -⟩
      contradiction

/-- Where what the staging path names may be taken away, nothing is left under it after a failure
but a directory that was there all along, on a disk without a change. Such a directory is
reported, and nothing else ever is. -/
theorem writePicture_clears (codec : Codec) (image : Raster) (p : Path) (hw : d.WellFormed)
    (hc : d.Clearable (stagingPath p)) :
    let run := (writePicture codec image p).run d
    (∀ f, run.value = .error f →
      (run.disk.NamesNothing (stagingPath p) ∨
        (d.NamesDirectory (stagingPath p) ∧ run.disk = d)) ∧
      ((∃ ev ∈ run.events, ev.IsLeftBehind) ↔ run.disk.NamesDirectory (stagingPath p))) ∧
    (run.value = .ok () → ∀ ev ∈ run.events, ¬ ev.IsLeftBehind) := by
  intro run
  rcases writePicture_cases codec image p hw with ⟨f, e, hstoring, hvalue, hdisk, hevents⟩ |
    ⟨hvalue, hevents⟩
  · refine ⟨fun _ _ => ?_, fun h => by cases hvalue.symm.trans h⟩
    rcases run_cleanUp_of_clearable (hstoring.wellFormed hw) (hstoring.clearable hw hc) f with
      ⟨hdir, hsame, cause, hreported⟩ | ⟨hnothing, hsilent⟩
    -- Nothing was stored by way of a directory, so the disk is the one at the start.
    · cases hstoring.eq_of_namesDirectory hw hdir
      rw [hreported] at hevents
      rw [hevents, hdisk, hsame]
      exact ⟨.inr ⟨hdir, rfl⟩, iff_of_true ⟨_, List.mem_singleton_self _, rfl, rfl⟩ hdir⟩
    · rw [hsilent] at hevents
      rw [← hdisk] at hnothing
      exact ⟨.inl hnothing, hevents.trans (iff_of_false (by simp) hnothing.not_namesDirectory)⟩
  · exact ⟨fun f h => (by cases hvalue.symm.trans h),
      fun _ ev hmem hev => hevents ⟨ev, hmem, hev⟩⟩

/-- A directory with a file in it stands where the one picture would be staged, and a link to
itself where the other would. -/
def Disk.obstructed : Disk where
  nodes := #[
    .directory 0 ⟨[(.ofString "work", 1)], .change⟩,
    .directory 0 ⟨[(.ofString ".a.png.partial", 2), (.ofString ".b.png.partial", 4)], .change⟩,
    .directory 1 ⟨[(.ofString "old.png", 3)], .change⟩,
    .file [1] true,
    .link (.ofString ".b.png.partial")]
  working := 1

/-- The directory stays and is reported; the link goes in silence. -/
theorem writePicture_clears_obstructed :
    let a : Path := .ofString "a.png"
    let b : Path := .ofString "b.png"
    let run (p : Path) := (writePicture Png.codec (.clear 1 1) p).run Disk.obstructed
    Disk.obstructed.WellFormed ∧ Disk.obstructed.Clearable (stagingPath a) ∧
      Disk.obstructed.Clearable (stagingPath b) ∧
      ((run a).value = .error (.create (stagingPath a) .isDirectory) ∧
        (run a).disk = Disk.obstructed ∧ ∃ ev ∈ (run a).events, ev.IsLeftBehind) ∧
      (run b).value = .error (.create (stagingPath b) .tooManyLinks) ∧
      (run b).disk.NamesNothing (stagingPath b) ∧ ¬ ∃ ev ∈ (run b).events, ev.IsLeftBehind := by
  intro a b run
  have hw : Disk.obstructed.WellFormed := wellFormed_of_wellFormedB (by decide +kernel)
  have hclear {p : Path} {s : Entry} (hs : Disk.obstructed.named? (stagingPath p) = some s)
      (hchange : Disk.obstructed.kind? s.directory = some (.directory 0 .change)) :
      Disk.obstructed.Clearable (stagingPath p) := by
    intro s' hs' _
    cases hs.symm.trans hs'
    exact ⟨0, hchange⟩
  have ha : Disk.obstructed.Clearable (stagingPath a) :=
    hclear (s := ⟨1, .ofString ".a.png.partial"⟩) (by decide +kernel) (by decide +kernel)
  have hb : Disk.obstructed.Clearable (stagingPath b) :=
    hclear (s := ⟨1, .ofString ".b.png.partial"⟩) (by decide +kernel) (by decide +kernel)
  have hva : (run a).value = .error (.create (stagingPath a) .isDirectory) := by decide +kernel
  have hvb : (run b).value = .error (.create (stagingPath b) .tooManyLinks) := by decide +kernel
  have hdir : Disk.obstructed.NamesDirectory (stagingPath a) :=
    ⟨⟨1, .ofString ".a.png.partial"⟩, .directory 1 .change, by decide +kernel,
      by decide +kernel, rfl⟩
  have hdisk : (run a).disk = Disk.obstructed := by decide +kernel
  obtain ⟨-, hreported⟩ := (writePicture_clears Png.codec (.clear 1 1) a hw ha).1 _ hva
  obtain ⟨hcleared, hsilent⟩ := (writePicture_clears Png.codec (.clear 1 1) b hw hb).1 _ hvb
  have hnothing : (run b).disk.NamesNothing (stagingPath b) :=
    hcleared.resolve_right fun h => by
      have : (run b).disk ≠ Disk.obstructed := by decide +kernel
      exact this h.2
  have hstays : (run a).disk.NamesDirectory (stagingPath a) := by
    rw [hdisk]
    exact hdir
  exact ⟨hw, ha, hb, ⟨hva, hdisk, hreported.mpr hstays⟩, hvb, hnothing,
    fun h => hnothing.not_namesDirectory (hsilent.mp h)⟩

end IconPainter
