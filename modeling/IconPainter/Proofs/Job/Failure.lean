import IconPainter.Painting
import IconPainter.Proofs.Delivery.Crash
import IconPainter.Proofs.Delivery.Preparation
import IconPainter.Proofs.Raster.Drawing

/-! # When a job fails

A job can fail in three places, and each leaves less untouched than the one
before: a crash nothing at all, the making of directories some of them, and the
writing of the picture all of them, but without the staging file. What could be
read under the path of the icon can be read after each.
-/

namespace IconPainter

open Delivery

namespace Disk

/-- The staging path names nothing, or a file of its own to which the path does not lead. -/
def Reserved (d : Disk) (p : Path) : Prop :=
  ∀ s, d.named? (stagingPath p) = some s →
    d.at? s = none ∨ (d.Single s ∧ d.target? p ≠ some s)

/-- The disk `e` is the disk `d` without the staging entry, unless that could not be removed. -/
structure Vacated (d : Disk) (p : Path) (e : Disk) : Prop where
  sameOff : SameOff {x | d.named? (stagingPath p) = some x} d e
  staging : ∀ s, d.named? (stagingPath p) = some s →
    e.at? s = none ∨ (¬ d.MayChange s.directory ∧ e.at? s = d.at? s)

variable {d e : Disk} {p : Path} {s t : Entry} {file : NodeId} {c : Bytes} {codec : Codec}
  {image : Raster} {f : Failure}

/-! ### Failed deliveries -/

theorem Reserved.sole (h : d.Reserved p) (hs : d.named? (stagingPath p) = some s) : d.Sole s :=
  (h s hs).imp_right And.left

theorem Reserved.apart (hw : d.WellFormed) (h : d.Reserved p) (hc : d.content? p = some c) :
    d.Apart p := by
  intro s hs
  refine ⟨h.sole hs, fun ht => ?_⟩
  rcases h s hs with hnone | ⟨-, hne⟩
  · rw [content?_eq hw, ht, Option.bind_some, contentAt?_of_at?_eq_none hnone] at hc
    contradiction
  · exact hne ht

theorem vacated_cleared (hw : d.WellFormed)
    (hsole : ∀ s, d.named? (stagingPath p) = some s → d.Sole s) :
    d.Vacated p (d.cleared (stagingPath p)) :=
  ⟨sameOff_cleared hw p, fun s hs => at?_cleared_of_sole hs (hsole s hs)⟩

theorem Written.vacated (hw : d.WellFormed) (h : d.Written s file c e) (hsole : d.Sole s)
    (hs : d.named? (stagingPath p) = some s) : d.Vacated p (e.cleared (stagingPath p)) := by
  have hstaging {s'} (hs' : e.named? (stagingPath p) = some s') : s' = s := by
    rw [h.named?_eq hw, hs] at hs'
    exact (Option.some.inj hs').symm
  obtain ⟨hsame, hgone⟩ := vacated_cleared (p := p) h.wellFormed fun s' hs' =>
    hstaging hs' ▸ .inr (h.single hw hsole)
  simp only [h.named?_eq hw] at hsame hgone
  refine ⟨((h.sameOff hw hsole).mono ?_).trans hsame, ?_⟩
  · intro y hy
    cases hy
    exact hs
  · intro s' hs'
    cases hs.symm.trans hs'
    rcases hgone s hs with hnone | ⟨hchange, hat⟩
    · exact .inl hnone
    rw [h.mayChange_iff] at hchange
    -- A file that was made could be taken away again, so this one was there before.
    rcases h.was with ⟨-, -, hmade⟩ | ⟨hwas, -⟩
    · exact (hchange hmade).elim
    · exact .inr ⟨hchange, by rw [hat, h.at?_self, hwas]⟩

theorem vacated_of_failed (hw : d.WellFormed)
    (hsole : ∀ s, d.named? (stagingPath p) = some s → d.Sole s)
    (hv : ((writePicture codec image p).run d).value = .error f) :
    d.Vacated p ((writePicture codec image p).run d).disk := by
  have hcourse := run_writePicture codec image p hw
  rw [hv] at hcourse
  generalize ((writePicture codec image p).run d).disk = e at hcourse
  have hnamed {t} (ht : d.target? (stagingPath p) = some t) : d.named? (stagingPath p) = some t :=
    named?_of_target? hw hsole ht
  cases hcourse with
  | unstored hstored =>
    cases hstored with
    | refused => exact vacated_cleared hw hsole
    | device => exact vacated_cleared hw hsole
    | unencoded _ ht hwr => exact hwr.vacated hw (hsole _ (hnamed ht)) (hnamed ht)
  | unmoved hstored =>
    cases hstored with
    | stored ht hwr => exact hwr.vacated hw (hsole _ (hnamed ht)) (hnamed ht)

/-- Nothing is done where nothing stands under the staging path and nothing can be made there. -/
theorem disk_of_closed (hw : d.WellFormed) (hs : d.named? (stagingPath p) = some s)
    (hnone : d.at? s = none) (hm : ¬ d.MayChange s.directory) :
    ((writePicture codec image p).run d).disk = d := by
  have hnamed {t} (ht : d.target? (stagingPath p) = some t) : t = s := by
    have hsole : ∀ s', d.named? (stagingPath p) = some s' → d.Sole s' := by
      intro s' hs'
      cases hs.symm.trans hs'
      exact .inl hnone
    exact Option.some.inj ((named?_of_target? hw hsole ht).symm.trans hs)
  have hunwritten {t file c e} (ht : d.target? (stagingPath p) = some t) :
      ¬ d.Written t file c e := by
    intro hwr
    cases hnamed ht
    rcases hwr.was with ⟨-, -, hchange⟩ | ⟨hat, -⟩
    · exact hm hchange
    · cases hnone.symm.trans hat
  have hcleared : d.cleared (stagingPath p) = d := by
    rcases cleared_cases d p with ⟨s', hs', -, hchange, -⟩ | ⟨heq, -⟩
    · cases hs.symm.trans hs'
      exact (hm hchange).elim
    · exact heq
  have hcourse := run_writePicture codec image p hw
  generalize ((writePicture codec image p).run d).value = r at hcourse
  generalize ((writePicture codec image p).run d).disk = f at hcourse
  cases hcourse with
  | unstored hstored =>
    cases hstored with
    | refused => exact hcleared
    | device => exact hcleared
    | unencoded _ ht hwr => exact (hunwritten ht hwr).elim
  | unmoved hstored | moved hstored =>
    cases hstored with
    | stored ht hwr => exact (hunwritten ht hwr).elim

theorem untouched_of_failed (hw : d.WellFormed) (h : d.Apart p)
    (hv : ((writePicture codec image p).run d).value = .error f) :
    d.Untouched p ((writePicture codec image p).run d).disk := by
  rcases states_writePicture codec image p hw with ⟨-, hstates⟩ | ⟨hok, -⟩
  · obtain ⟨e, hstoring, heq | heq⟩ := hstates _ (Script.disk_mem_states_run _ _)
    · exact heq ▸ (untouched_of_storing hw h hstoring).1
    · exact heq ▸ (untouched_of_storing hw h hstoring).2
  · rw [hv] at hok
    contradiction

end Disk

/-! ### The work of a job -/

open Disk

namespace Job

variable {codec : Codec}

/-- How a job can end, and with which disk. -/
inductive Ends (codec : Codec) (j : Job) (d : Disk) :
    Except Crash (Except Failure Path) → Disk → Prop where

  | crashed {crash : Crash} : Drawing.paint j.size = .error crash → Ends codec j d (.error crash) d

  | unprepared {image : Raster} {f : Failure} : Drawing.paint j.size = .ok image →
      ((prepareDirectory j.directory).run d).value = .error f →
      Ends codec j d (.ok (.error f)) (d.prepared j.directory)

  | unwritten {image : Raster} {f : Failure} : Drawing.paint j.size = .ok image →
      ((prepareDirectory j.directory).run d).value = .ok () →
      ((writePicture codec image j.destination).run (d.prepared j.directory)).value = .error f →
      Ends codec j d (.ok (.error f))
        ((writePicture codec image j.destination).run (d.prepared j.directory)).disk

  | written {image : Raster} : Drawing.paint j.size = .ok image →
      ((prepareDirectory j.directory).run d).value = .ok () →
      ((writePicture codec image j.destination).run (d.prepared j.directory)).value = .ok () →
      Ends codec j d (.ok (.ok j.destination))
        ((writePicture codec image j.destination).run (d.prepared j.directory)).disk

theorem ends_work (codec : Codec) (j : Job) (d : Disk) :
    j.Ends codec d ((j.work codec).run d).value ((j.work codec).run d).disk := by
  unfold work
  cases hpaint : Drawing.paint j.size with
  | error crash => exact .crashed hpaint
  | ok image =>
    simp only [deliver, Script.value_run_bind, Script.disk_run_bind, Script.run_within,
      Script.run]
    cases hprepare : ((prepareDirectory j.directory).run d).value with
    | error f => exact .unprepared hpaint hprepare
    | ok u =>
      simp only [Script.value_run_bind, Script.disk_run_bind]
      cases hwrite :
          ((writePicture codec image j.destination).run (d.prepared j.directory)).value with
      | error f =>
        simp only [prepared] at hwrite
        simp only [hwrite, Script.run]
        exact .unwritten hpaint hprepare hwrite
      | ok u =>
        simp only [prepared] at hwrite
        simp only [hwrite, Script.run]
        exact .written hpaint hprepare hwrite

/-- A job crashes exactly if its icon is too large to be held. -/
theorem crash_iff (codec : Codec) (j : Job) (d : Disk) :
    (∃ crash, ((j.work codec).run d).value = .error crash) ↔ 2 ^ 63 - 1 < 4 * j.size.toNat ^ 2 := by
  have hpaint := @Drawing.exists_paint_eq_ok_iff j.size
  have hends := j.ends_work codec d
  generalize ((j.work codec).run d).value = r at hends
  generalize ((j.work codec).run d).disk = e at hends
  constructor
  · rintro ⟨crash, rfl⟩
    cases hends with
    | crashed hcrash =>
      have hno : ¬ ∃ r, Drawing.paint j.size = .ok r := by
        rintro ⟨r, hr⟩
        cases hcrash.symm.trans hr
      rw [hpaint] at hno
      omega
  · intro hlarge
    cases hends with
    | crashed => exact ⟨_, rfl⟩
    | unprepared hok | unwritten hok | written hok =>
      have := hpaint.mp ⟨_, hok⟩
      omega

theorem disk_of_crash {j : Job} {d : Disk} {crash : Crash}
    (h : ((j.work codec).run d).value = .error crash) : ((j.work codec).run d).disk = d := by
  have hends := j.ends_work codec d
  rw [h] at hends
  generalize ((j.work codec).run d).disk = e at hends
  cases hends with
  | crashed => rfl

theorem value_ne_of_size_eq_zero {j : Job} (h : j.size = 0) (d : Disk) (hw : d.WellFormed)
    (p : Path) : ((j.work codec).run d).value ≠ .ok (.ok p) := by
  intro hv
  have hends := j.ends_work codec d
  rw [hv] at hends
  generalize ((j.work codec).run d).disk = e at hends
  cases hends with
  | @written image hpaint _ hwrite =>
    have hencode : ¬ codec.Encodes image := fun hencode =>
      (Codec.encodes_iff.mp hencode).1 ((Drawing.size_of_paint hpaint).1.trans h)
    have hprepared := (run_prepareDirectory j.directory hw).1.right
    obtain ⟨f, _, hf, -⟩ := run_unencodable hprepared j.destination hencode
    cases hf.symm.trans hwrite

/-- What is left of the disk by each kind of failure. What could be read under the path of the
icon can be read after all of them. Only a picture that is written asks for a staging path that is
reserved once the directory is there. -/
theorem failure_keeps_destination (codec : Codec) (j : Job) {d : Disk} (hw : d.WellFormed) :
    ((∃ crash, ((j.work codec).run d).value = .error crash) ↔ 2 ^ 63 - 1 < 4 * j.size.toNat ^ 2) ∧
    (∀ crash, ((j.work codec).run d).value = .error crash → ((j.work codec).run d).disk = d) ∧
    (∀ f, ((j.work codec).run d).value = .ok (.error f) →
      ((prepareDirectory j.directory).run d).value = .error f →
      Grown (j.directory :: j.directory.ancestors) d ((j.work codec).run d).disk) ∧
    (∀ f, ((j.work codec).run d).value = .ok (.error f) →
      ((prepareDirectory j.directory).run d).value = .ok () →
      Grown (j.directory :: j.directory.ancestors) d (d.prepared j.directory) ∧
        ((d.prepared j.directory).Reserved j.destination →
          (d.prepared j.directory).Vacated j.destination ((j.work codec).run d).disk)) ∧
    ((∀ p, ((j.work codec).run d).value ≠ .ok (.ok p)) →
      (((prepareDirectory j.directory).run d).value = .ok () →
        (d.prepared j.directory).Reserved j.destination) →
      ∀ c, d.content? j.destination = some c →
        ((j.work codec).run d).disk.content? j.destination = some c) ∧
    (j.size = 0 → ∀ p, ((j.work codec).run d).value ≠ .ok (.ok p)) := by
  have hgrown : Grown (j.directory :: j.directory.ancestors) d (d.prepared j.directory) :=
    (run_prepareDirectory j.directory hw).1
  have hends := j.ends_work codec d
  refine ⟨j.crash_iff codec d, fun _ => disk_of_crash, ?_, ?_, ?_,
    fun h => value_ne_of_size_eq_zero h d hw⟩
  · intro f hv hprepare
    rw [hv] at hends
    generalize ((j.work codec).run d).disk = e at hends
    cases hends with
    | unprepared => exact hgrown
    | unwritten _ hok => cases hprepare.symm.trans hok
  · intro f hv hprepare
    rw [hv] at hends
    generalize ((j.work codec).run d).disk = e at hends
    cases hends with
    | unprepared _ herror => cases hprepare.symm.trans herror
    | unwritten _ _ hwrite => exact ⟨hgrown, fun hs =>
      vacated_of_failed hgrown.right (fun _ => hs.sole) hwrite⟩
  · intro hno hs c hc
    have hprepared := hgrown.content?_eq hc
    generalize ((j.work codec).run d).value = r at hends hno
    generalize ((j.work codec).run d).disk = e at hends
    cases hends with
    | crashed => exact hc
    | unprepared => exact hprepared
    | unwritten _ hok hwrite =>
      have hapart := (hs hok).apart hgrown.right hprepared
      rw [(untouched_of_failed hgrown.right hapart hwrite).content?_eq, hprepared]
    | written => exact (hno _ rfl).elim

end Job

/-- An icon without pixels leaves the picture that is read through the link. -/
theorem Job.failure_keeps_destination_used :
    let j : Job := ⟨0, .ofString ".", "icon.png"⟩
    ((j.work Png.codec).run Disk.used).disk.content? j.destination = some [1] := by
  intro j
  have hw : Disk.used.WellFormed := wellFormed_of_wellFormedB (by decide +kernel)
  have hprepared : Disk.used.prepared j.directory = Disk.used := by decide +kernel
  have hreserved : (Disk.used.prepared j.directory).Reserved j.destination := by
    intro s hs
    rw [hprepared] at hs ⊢
    have hnamed : Disk.used.named? (stagingPath j.destination) =
        some ⟨1, .ofString ".icon.png.partial"⟩ := by decide +kernel
    cases hnamed.symm.trans hs
    have hkind : Disk.used.kind? 4 = some (.file [2] true) := by decide +kernel
    exact .inr ⟨single_of_links (by decide +kernel) hkind (by decide +kernel), by decide +kernel⟩
  obtain ⟨-, -, -, -, hkeeps, hzero⟩ := failure_keeps_destination Png.codec j hw
  exact hkeeps (hzero rfl) (fun _ => hreserved) _ (by decide +kernel)

/-- A directory with a picture that has a second name, the one for a staging file. -/
def Disk.shared : Disk where
  nodes := #[
    .directory 0 ⟨[(.ofString "work", 1)], .search⟩,
    .directory 0 ⟨[(.ofString "e", 2)], .change⟩,
    .directory 1 ⟨[(.ofString "other.png", 3), (.ofString ".icon.png.partial", 3)], .change⟩,
    .file [1] true]
  working := 1

/-- A directory that may not be changed, with a staging file that may be written. -/
def Disk.closed : Disk where
  nodes := #[
    .directory 0 ⟨[(.ofString "work", 1)], .search⟩,
    .directory 0 ⟨[(.ofString ".icon.png.partial", 2)], .search⟩,
    .file [1] true]
  working := 1

/-- The staging path may come to name something only when the directory is there, and a staging
file may be written where it cannot be removed. -/
theorem Job.failure_changes_shared :
    (let j : Job := ⟨0, .ofString "d", "../e/icon.png"⟩
     Disk.shared.WellFormed ∧ Disk.shared.named? (stagingPath j.destination) = none ∧
      (∃ f, ((j.work Png.codec).run Disk.shared).value = .ok (.error f)) ∧
      Disk.shared.content? (.ofString "e/other.png") = some [1] ∧
      ((j.work Png.codec).run Disk.shared).disk.content? (.ofString "e/other.png") =
        some Png.codec.ending) ∧
    (let j : Job := ⟨0, .ofString ".", "icon.png"⟩
     Disk.closed.WellFormed ∧ Disk.closed.Reserved j.destination ∧
      (∃ f, ((j.work Png.codec).run Disk.closed).value = .ok (.error f)) ∧
      Disk.closed.content? (stagingPath j.destination) = some [1] ∧
      ((j.work Png.codec).run Disk.closed).disk.content? (stagingPath j.destination) =
        some Png.codec.ending) := by
  constructor
  · exact ⟨wellFormed_of_wellFormedB (by decide +kernel), by decide +kernel,
      ⟨.encode (stagingPath (.ofString "d/../e/icon.png")) "Zero width not allowed",
        by decide +kernel⟩,
      by decide +kernel, by decide +kernel⟩
  · refine ⟨wellFormed_of_wellFormedB (by decide +kernel), ?_,
      ⟨.encode (stagingPath (.ofString "./icon.png")) "Zero width not allowed", by decide +kernel⟩,
      by decide +kernel, by decide +kernel⟩
    intro s hs
    have hnamed : Disk.closed.named? (stagingPath (.ofString "./icon.png")) =
        some ⟨1, .ofString ".icon.png.partial"⟩ := by decide +kernel
    cases hnamed.symm.trans hs
    have hkind : Disk.closed.kind? 2 = some (.file [1] true) := by decide +kernel
    exact .inr ⟨single_of_links (by decide +kernel) hkind (by decide +kernel), by decide +kernel⟩

end IconPainter
