import IconPainter.Proofs.Delivery.Repetition
import IconPainter.Proofs.Job.Success
import IconPainter.Proofs.Program.Independence

/-! # Running the program again

Where nothing stands under the staging path of the icon but a file that may be
used for it, what a run says is what it did. With code 0 the icon is there, and
further runs do not change anything. With code 1 the error is told at the end, and
what was under the path of the icon is there still.
-/

namespace IconPainter

open IconPainter.Path Delivery Disk

/-- The staging path names nothing, or a file that may be written and has no other name. -/
def Disk.Spare (d : Disk) (p : Path) : Prop :=
  ∀ s, d.named? (stagingPath p) = some s →
    d.at? s = none ∨ (d.Single s ∧ ∃ c, d.kindAt? s = some (.file c true))

theorem Disk.Spare.sole {d : Disk} {p : Path} (h : d.Spare p) :
    ∀ s, d.named? (stagingPath p) = some s → d.Sole s :=
  fun s hs => (h s hs).imp_right And.left

theorem Disk.Spare.ready_of_target? {d : Disk} {p : Path} {s : Entry} (h : d.Spare p)
    (hw : d.WellFormed) (hs : d.named? (stagingPath p) = some s) (ht : d.target? p = some s) :
    d.Ready p := by
  obtain ⟨x, hx⟩ := exists_names_of_target? hw ht
  have hlink : d.HasLeaf x := by
    have hne := (named?_ne_stagingPath hx.1 hs).symm
    obtain ⟨id, target, hr⟩ := exists_link_of_target? hw ht hx hne.symm
    exact hasLeaf_of_link hr
  refine ⟨x, s, hx, hs, ?_, .inr hlink⟩
  exact (h s hs).imp (fun hnone => by simp [kindAt?, hnone]) And.right

namespace Program

variable {l : Libraries} {codec : Codec} {args : List Bytes} {setting : Option Bytes} {d e f : Disk}
  {image : Raster} {x : Entry}

/-! ### The work of a run -/

theorem proper_job : job.Proper := by decide

theorem bytes_directory_ne_nil : job.directory.bytes ≠ [] := by decide

theorem ancestors_directory : job.directory.ancestors = [⟨[]⟩] := by decide

theorem isName_fileName : IsName (Bytes.ofString job.fileName) := proper_job.isName

theorem exists_paint : ∃ image, Drawing.paint job.size = .ok image :=
  Drawing.exists_paint_eq_ok_iff.mpr (by decide)

/-- How the work of a run can end, and with which disk. -/
inductive Ends (codec : Codec) (image : Raster) (d : Disk) : Outcome → Disk → Prop where

  | unprepared {f : Failure} : ¬ d.HasDirectoryAt job.directory →
      (∀ e, ¬ d.Makes job.directory e) → Ends codec image d (.failed f) d

  | unwritten {f : Failure} : d.HasDirectoryAt job.directory →
      ((writePicture codec image job.destination).run d).value = .error f →
      Ends codec image d (.failed f) ((writePicture codec image job.destination).run d).disk

  | written : d.HasDirectoryAt job.directory →
      ((writePicture codec image job.destination).run d).value = .ok () →
      Ends codec image d .made ((writePicture codec image job.destination).run d).disk

  | made {e : Disk} : d.Makes job.directory e →
      ((writePicture codec image job.destination).run e).value = .ok () →
      Ends codec image d .made ((writePicture codec image job.destination).run e).disk

theorem run_work (codec : Codec) (d : Disk) :
    ((work codec).run d).disk = ((job.work codec).run d).disk ∧
      ((work codec).run d).value = outcome ((job.work codec).run d).value := by
  simp only [work, Script.run, Script.value_run_bind, Script.disk_run_bind, and_self]

theorem ends_work (codec : Codec) (hw : d.WellFormed)
    (hpaint : Drawing.paint job.size = .ok image) :
    Ends codec image d ((work codec).run d).value ((work codec).run d).disk := by
  obtain ⟨hdisk, hvalue⟩ := run_work codec d
  rw [hdisk, hvalue]
  have hprepare := run_prepareDirectory_of_single hw bytes_directory_ne_nil ancestors_directory
  have hends := job.ends_work codec d
  generalize ((job.work codec).run d).value = r at hends
  generalize ((job.work codec).run d).disk = f at hends
  cases hends with
  | crashed hcrash => cases hcrash.symm.trans hpaint
  | unprepared _ herror =>
    rcases hprepare with ⟨hok, -⟩ | ⟨hno, hsame, hiff⟩
    · cases hok.symm.trans herror
    · rw [prepared, hsame]
      refine .unprepared (fun hd => ?_) hno
      cases (hiff.mpr hd).symm.trans herror
  | unwritten himage hok hwrite =>
    cases himage.symm.trans hpaint
    rw [prepared] at hwrite ⊢
    rcases hprepare with ⟨-, hmakes⟩ | ⟨-, hsame, hiff⟩
    · cases hwrite.symm.trans
        (proper_job.value_eq_ok_of_makes hw bytes_directory_ne_nil hmakes hpaint)
    · rw [hsame] at hwrite ⊢
      exact .unwritten (hiff.mp hok) hwrite
  | written himage hok hwrite =>
    cases himage.symm.trans hpaint
    rw [prepared] at hwrite ⊢
    rcases hprepare with ⟨-, hmakes⟩ | ⟨-, hsame, hiff⟩
    · exact .made hmakes hwrite
    · rw [hsame] at hwrite ⊢
      exact .written (hiff.mp hok) hwrite

/-- Where the directory is there, a run is a delivery. -/
theorem run_work_of_hasDirectoryAt (codec : Codec) (hw : d.WellFormed)
    (hpaint : Drawing.paint job.size = .ok image) (hd : d.HasDirectoryAt job.directory) :
    ((work codec).run d).disk = ((writePicture codec image job.destination).run d).disk ∧
      ((work codec).run d).value =
        match ((writePicture codec image job.destination).run d).value with
        | .ok () => .made
        | .error f => .failed f := by
  have hends := ends_work codec hw hpaint
  generalize ((work codec).run d).value = outcome at hends
  generalize ((work codec).run d).disk = f at hends
  cases hends with
  | unprepared hno => exact (hno hd).elim
  | unwritten _ herror => exact ⟨rfl, by rw [herror]⟩
  | written _ hok => exact ⟨rfl, by rw [hok]⟩
  | made hmakes => exact (hd.not_makes hmakes).elim

theorem failed_of_not_hasDirectoryAt (codec : Codec) (hw : d.WellFormed)
    (hd : ¬ d.HasDirectoryAt job.directory) (hm : ∀ e, ¬ d.Makes job.directory e) :
    ∃ failure, ((work codec).run d).value = .failed failure := by
  obtain ⟨image, hpaint⟩ := exists_paint
  have hends := ends_work codec hw hpaint
  generalize ((work codec).run d).value = outcome at hends
  generalize ((work codec).run d).disk = f at hends
  cases hends with
  | unprepared => exact ⟨_, rfl⟩
  | unwritten h | written h => exact (hd h).elim
  | made hmakes => exact (hm _ hmakes).elim

theorem not_failed_of_makes (codec : Codec) (hw : d.WellFormed)
    (hm : d.Makes job.directory e) (f : Failure) :
    ((work codec).run d).value ≠ .failed f := by
  intro hv
  obtain ⟨image, hpaint⟩ := exists_paint
  have hends := ends_work codec hw hpaint
  rw [hv] at hends
  generalize ((work codec).run d).disk = g at hends
  cases hends with
  | unprepared _ hno => exact hno e hm
  | unwritten hd => exact hd.not_makes hm

/-! ### What is seen of a run -/

theorem run_of_made (h : Understood l args) (hs : Answers l setting)
    (hv : ((work l.codec).run d).value = .made) :
    ∃ r, run l args setting d = (some r, ((work l.codec).run d).disk) ∧ r.code = 0 ∧
      r.output = "Created icons/icon.png\n" := by
  obtain ⟨filter, hrun⟩ := exists_run h hs d
  have houtput : "Created " ++ job.destinationText ++ "\n" = "Created icons/icon.png\n" := by
    decide
  rw [hv] at hrun
  exact ⟨_, hrun, rfl, houtput⟩

theorem failureLines_ne_nil (f : Failure) : failureLines f ≠ [] := by
  cases f <;> simp [failureLines, Failure.chain]

theorem run_of_failed {failure : Failure} (h : Understood l args) (hs : Answers l setting)
    (hv : ((work l.codec).run d).value = .failed failure) :
    ∃ r, run l args setting d = (some r, ((work l.codec).run d).disk) ∧ r.code = 1 ∧
      r.output = "" ∧ failureLines failure <:+ r.lines := by
  obtain ⟨filter, hrun⟩ := exists_run h hs d
  rw [hv] at hrun
  exact ⟨_, hrun, rfl, rfl, List.suffix_append _ _⟩

/-! ### A run that made the icon -/

def Exits (l : Libraries) (args : List Bytes) (setting : Option Bytes) (d : Disk) (code : Nat) :
    Prop :=
  ∃ r, (run l args setting d).1 = some r ∧ r.code = code

/-- What a run reports and leaves that made the icon. -/
structure Succeeded (l : Libraries) (d : Disk) (r : Report) (f : Disk) : Prop where
  code : r.code = 0
  output : r.output = "Created icons/icon.png\n"
  staging : ∀ s, f.named? (stagingPath job.destination) = some s → f.at? s = none
  icon : ¬ d.Circles job.destination → ∃ x bytes image,
    f.named? job.destination = some x ∧ f.kindAt? x = some (.file bytes true) ∧
      f.content? job.destination = some bytes ∧ l.codec.decode bytes = some image ∧
      Drawing.paint 256 = .ok image
  again : ¬ d.Circles job.destination → ∀ args setting, Understood l args → Answers l setting →
    Exits l args setting f 0 ∧ f.SameTree (run l args setting f).2
  lost : d.Circles job.destination → (∃ x bytes image,
      d.named? job.destination = some x ∧ f.kindAt? x = some (.file bytes true) ∧
        l.codec.decode bytes = some image ∧ Drawing.paint 256 = .ok image) ∧
    f.content? job.destination = none ∧
    ∀ args setting, Understood l args → Answers l setting → Exits l args setting f 1

theorem hasDirectoryAt_of_named? {name : Bytes} (hn : IsName name)
    (hx : d.named? (job.directory.join ⟨name⟩) = some x) : d.HasDirectoryAt job.directory :=
  have hb := base_of_named? hn hx
  ⟨_, hb.1.resolve_left fun h => bytes_directory_ne_nil h.1, hb.2⟩

theorem not_circles_of_makes (hw : d.WellFormed) (h : d.Makes job.directory e) :
    ¬ d.Circles job.destination ∧ ¬ e.Circles job.destination := by
  constructor
  · rintro ⟨x, hx, -⟩
    exact (hasDirectoryAt_of_named? isName_fileName hx).not_makes h
  · rintro ⟨x, hx, hpass⟩
    obtain ⟨⟨y, hy, hnone⟩, -⟩ := proper_job.exists_named_of_makes hw bytes_directory_ne_nil h
    cases hy.1.symm.trans hx
    obtain ⟨k, hk, -⟩ := hpass.passable
    simp [kindAt?, hnone] at hk

theorem sameTree_run (hw : d.WellFormed) (hpaint : Drawing.paint job.size = .ok image)
    (hd : d.HasDirectoryAt job.directory)
    (hv : ((writePicture l.codec image job.destination).run d).value = .ok ())
    (halike : d.Alike ((writePicture l.codec image job.destination).run d).disk)
    (hargs : Understood l args) (hs : Answers l setting) :
    Exits l args setting d 0 ∧ d.SameTree (run l args setting d).2 := by
  obtain ⟨hdisk, hmade⟩ := run_work_of_hasDirectoryAt l.codec hw hpaint hd
  rw [hv] at hmade
  obtain ⟨r, hrun, hcode, -⟩ := run_of_made hargs hs hmade
  rw [Exits, hrun, hdisk]
  exact ⟨⟨r, rfl, hcode⟩, halike.sameTree hw⟩

section Succeeded

variable (hw : d.WellFormed) (hpaint : Drawing.paint job.size = .ok image)
  (hd : d.HasDirectoryAt job.directory)
  (hsole : ∀ s, d.named? (stagingPath job.destination) = some s → d.Sole s)
  (hv : ((writePicture l.codec image job.destination).run d).value = .ok ())
include hw hpaint hd hsole hv

omit hd in
theorem run_again (hc : ¬ d.Circles job.destination) (hargs : Understood l args)
    (hs : Answers l setting) :
    let f := ((writePicture l.codec image job.destination).run d).disk
    Exits l args setting f 0 ∧ f.SameTree (run l args setting f).2 := by
  intro f
  have hfree := free_of_value_eq_ok hw hsole hv
  have hwf : f.WellFormed := Script.wellFormed_run _ hw
  obtain ⟨⟨x, bytes, hx, -⟩, -, hvalue, halike⟩ := deliver_again hw hfree hc hv
  have hd := hasDirectoryAt_of_named? isName_fileName hx
  exact sameTree_run hwf hpaint hd hvalue halike hargs hs

omit hpaint in
theorem run_lost (hc : d.Circles job.destination) (hargs : Understood l args)
    (hs : Answers l setting) :
    Exits l args setting ((writePicture l.codec image job.destination).run d).disk 1 := by
  have hfree := free_of_value_eq_ok hw hsole hv
  have hwf := Script.wellFormed_run (writePicture l.codec image job.destination) hw
  have heffect := effect_writePicture l.codec image hw hfree
  obtain ⟨failure, hfailed⟩ := failed_of_not_hasDirectoryAt l.codec hwf
    (heffect.not_hasDirectoryAt hw hwf hv isName_fileName hc)
    fun e => heffect.not_makes hw hwf hfree hd
  obtain ⟨r, hrun, hcode, -⟩ := run_of_failed hargs hs hfailed
  exact ⟨r, by rw [hrun], hcode⟩

theorem succeeded {r : Report} (hcode : r.code = 0)
    (houtput : r.output = "Created icons/icon.png\n")
    (he : e = d ∨ (¬ e.Circles job.destination ∧ ¬ d.Circles job.destination)) :
    Succeeded l e r ((writePicture l.codec image job.destination).run d).disk := by
  have hfree := free_of_value_eq_ok hw hsole hv
  have hwf := Script.wellFormed_run (writePicture l.codec image job.destination) hw
  have heffect := effect_writePicture l.codec image hw hfree
  have hcircles (hc : ¬ e.Circles job.destination) : ¬ d.Circles job.destination :=
    he.elim (fun h => h ▸ hc) And.right
  refine ⟨hcode, houtput, fun s hs => ?_, fun hc => ?_, fun hc args setting hargs hs => ?_,
    fun hc => ?_⟩
  · exact heffect.gone s (heffect.named?_eq_some_of_after hw hwf hs)
  · obtain ⟨⟨x, bytes, hx, hkind, hcontent, hdecode⟩, -⟩ :=
      deliver_again hw hfree (hcircles hc) hv
    exact ⟨x, bytes, image, hx, hkind, hcontent, hdecode, hpaint⟩
  · exact run_again hw hpaint hsole hv (hcircles hc) hargs hs
  · cases he.resolve_right fun h => h.1 hc
    obtain ⟨x, bytes, hx, hkind, hdecode, -, hnone⟩ := delivered_of_ok hw hfree.plain hv
    obtain ⟨y, hy, hpass⟩ := hc
    cases hx.symm.trans hy
    exact ⟨⟨x, bytes, image, hx, hkind, hdecode, hpaint⟩, hnone hpass,
      fun args setting hargs hs => run_lost hw hd hsole hv ⟨x, hx, hpass⟩ hargs hs⟩

end Succeeded

/-! ### A run that failed -/

/-- What a run reports and leaves that failed. -/
structure Failed (l : Libraries) (d : Disk) (r : Report) (f : Disk) : Prop where
  code : r.code = 1
  output : r.output = ""
  error : ∃ failure, ((work l.codec).run d).value = .failed failure ∧ failureLines failure ≠ [] ∧
    failureLines failure <:+ r.lines
  vacated : d.Vacated job.destination f
  untouched : (∀ s, d.named? (stagingPath job.destination) = some s →
      d.target? job.destination = some s → d.at? s = none ∨ d.MayChange s.directory) →
    d.Untouched job.destination f

theorem vacated_of_not_hasDirectoryAt (hd : ¬ d.HasDirectoryAt job.directory) :
    d.Vacated job.destination d := by
  have hpath : stagingPath job.destination =
      job.directory.join ⟨stagingName (Bytes.ofString job.fileName)⟩ := by decide
  refine ⟨.refl _ d, fun s hs => ?_⟩
  rw [hpath] at hs
  exact (hd (hasDirectoryAt_of_named? (isName_stagingName isName_fileName.slash_notMem) hs)).elim

/-- A failed delivery leaves what was under the path of the icon, unless that leads to a staging
file that can be written but not moved. -/
theorem untouched_of_spare (hw : d.WellFormed) (hspare : d.Spare job.destination)
    (hpaint : Drawing.paint job.size = .ok image) {failure : Failure}
    (hv : ((writePicture codec image job.destination).run d).value = .error failure)
    (htarget : ∀ s, d.named? (stagingPath job.destination) = some s →
      d.target? job.destination = some s → d.at? s = none ∨ d.MayChange s.directory) :
    d.Untouched job.destination ((writePicture codec image job.destination).run d).disk := by
  by_cases hleads : ∃ s, d.named? (stagingPath job.destination) = some s ∧
      d.target? job.destination = some s
  · obtain ⟨s, hs, ht⟩ := hleads
    by_cases hm : d.MayChange s.directory
    · have hfree : d.Free (stagingPath job.destination) := by
        intro s' hs'
        cases hs.symm.trans hs'
        exact ⟨hm, hspare.sole s hs⟩
      have hok := (value_writePicture_eq_ok_iff codec image hw hfree).mpr
        ⟨proper_job.encodes hpaint, hspare.ready_of_target? hw hs ht⟩
      cases hv.symm.trans hok
    · rw [disk_of_closed hw hs ((htarget s hs ht).resolve_right hm) hm]
      exact .refl d _
  · exact untouched_of_failed hw
      (fun s hs => ⟨hspare.sole s hs, fun ht => hleads ⟨s, hs, ht⟩⟩) hv

theorem failed {failure : Failure} (hargs : Understood l args) (hs : Answers l setting)
    (hv : ((work l.codec).run d).value = .failed failure) (hdisk : ((work l.codec).run d).disk = f)
    (hvacated : d.Vacated job.destination f)
    (huntouched : (∀ s, d.named? (stagingPath job.destination) = some s →
        d.target? job.destination = some s → d.at? s = none ∨ d.MayChange s.directory) →
      d.Untouched job.destination f) :
    ∃ r, run l args setting d = (some r, f) ∧ Failed l d r f := by
  obtain ⟨r, hrun, hcode, houtput, hlines⟩ := run_of_failed hargs hs hv
  exact ⟨r, hdisk ▸ hrun, hcode, houtput, ⟨_, hv, failureLines_ne_nil _, hlines⟩, hvacated,
    huntouched⟩

/-- A run succeeds or fails, says which, and leaves the disk so. -/
theorem succeeds_or_fails (l : Libraries) (args : List Bytes) (setting : Option Bytes) (d : Disk)
    (hw : d.WellFormed) (hargs : Understood l args) (hs : Answers l setting)
    (hspare : d.Spare job.destination) :
    ∃ r f, run l args setting d = (some r, f) ∧ (Succeeded l d r f ∨ Failed l d r f) := by
  obtain ⟨image, hpaint⟩ := exists_paint
  have hends := ends_work l.codec hw hpaint
  generalize hv : ((work l.codec).run d).value = outcome at hends
  generalize hdisk : ((work l.codec).run d).disk = f at hends
  cases hends with
  | unprepared hd =>
    obtain ⟨r, hrun, hfailed⟩ := failed hargs hs hv hdisk (vacated_of_not_hasDirectoryAt hd)
      fun _ => .refl _ _
    exact ⟨r, _, hrun, .inr hfailed⟩
  | unwritten hd hwrite =>
    obtain ⟨r, hrun, hfailed⟩ := failed hargs hs hv hdisk (vacated_of_failed hw hspare.sole hwrite)
      (untouched_of_spare hw hspare hpaint hwrite)
    exact ⟨r, _, hrun, .inr hfailed⟩
  | written hd hwrite =>
    obtain ⟨r, hrun, hcode, houtput⟩ := run_of_made hargs hs hv
    exact ⟨r, _, hdisk ▸ hrun,
      .inl (succeeded hw hpaint hd hspare.sole hwrite hcode houtput (.inl rfl))⟩
  | @made e hmakes hwrite =>
    obtain ⟨r, hrun, hcode, houtput⟩ := run_of_made hargs hs hv
    obtain ⟨-, s, hns, hnone⟩ :=
      proper_job.exists_named_of_makes hw bytes_directory_ne_nil hmakes
    have hsole (s') (hs' : e.named? (stagingPath job.destination) = some s') : e.Sole s' := by
      cases hns.symm.trans hs'
      exact .inl hnone
    exact ⟨r, _, hdisk ▸ hrun, .inl (succeeded (hmakes.wellFormed hw) hpaint
      (hmakes.hasDirectoryAt hw) hsole hwrite hcode houtput
      (.inr (not_circles_of_makes hw hmakes)))⟩

/-- In an empty directory the icon is made. -/
theorem succeeds_or_fails_fresh :
    ∃ r f, run .standard [] none Disk.fresh = (some r, f) ∧
      Succeeded .standard Disk.fresh r f := by
  have hspare : Disk.fresh.Spare job.destination := by
    intro s hs
    have hno : Disk.fresh.named? (stagingPath job.destination) = none := by decide +kernel
    cases hno.symm.trans hs
  obtain ⟨r, f, hrun, h | hfailed⟩ := succeeds_or_fails .standard [] none Disk.fresh
    wellFormed_fresh ⟨0, rfl⟩ (answers_none _) hspare
  · exact ⟨r, f, hrun, h⟩
  · obtain ⟨failure, hv, -⟩ := hfailed.error
    have hmakes : Disk.fresh.Makes job.directory _ :=
      .mk (x := ⟨6, .ofString "icons"⟩) (by decide +kernel) (by decide +kernel)
        ⟨5, by decide +kernel⟩
    exact (not_failed_of_makes _ wellFormed_fresh hmakes failure hv).elim

end Program

/-- A directory that is found by a link to the icon in it, which is a link back. -/
def Disk.circled : Disk where
  nodes := #[
    .directory 0 ⟨[(.ofString "work", 1)], .search⟩,
    .directory 0 ⟨[(.ofString "icons", 2), (.ofString "icon.png", 3)], .change⟩,
    .link (.ofString "icon.png"),
    .link (.ofString ".")]
  working := 1

/-- A directory that may not be changed, with an empty staging file to which the icon is a link. -/
def Disk.lent : Disk where
  nodes := #[
    .directory 0 ⟨[(.ofString "work", 1)], .search⟩,
    .directory 0 ⟨[(.ofString "icons", 2)], .change⟩,
    .directory 1 ⟨[(.ofString "icon.png", 3), (.ofString ".icon.png.partial", 4)], .search⟩,
    .link (.ofString ".icon.png.partial"),
    .file [] true]
  working := 1

namespace Program

theorem circles_circled : Disk.circled.Circles job.destination := by
  have hstart : Disk.start Disk.circled.working job.destination = 1 := by decide
  have hicons : Disk.circled.hop 1 (.name (.ofString "icons")) =
      .ok (2, some (.ofString "icon.png")) := by decide
  have hicon : Disk.circled.hop 1 (.name (.ofString "icon.png")) =
      .ok (3, some (.ofString ".")) := by decide
  have hhere : Disk.circled.hop 1 .here = .ok (1, none) := by decide
  have hsteps : (Path.ofString "icon.png").fullSteps ++ [] = [.name (.ofString "icon.png")] := by
    decide
  have hsteps' : (Path.ofString ".").fullSteps ++ [] = [.here] := by decide
  have hback : Disk.circled.Walks 1 [.name (.ofString "icon.png")]
      [⟨1, .ofString "icon.png"⟩] 1 1 := .follow hicon (hsteps' ▸ .on hhere .done)
  have hwalk : Disk.circled.Walks 1 [.name (.ofString "icons")]
      [⟨1, .ofString "icons"⟩, ⟨1, .ofString "icon.png"⟩] 1 2 := .follow hicons (hsteps ▸ hback)
  have ha : Disk.circled.Approaches job.destination
      [⟨1, .ofString "icons"⟩, ⟨1, .ofString "icon.png"⟩] ⟨1, .ofString "icon.png"⟩ 2 :=
    ⟨by decide, by decide, ⟨0, .change, by decide, by decide⟩,
      [.name (.ofString "icons")], by decide, hstart ▸ hwalk⟩
  exact ⟨_, named?_iff_approaches.mpr ⟨by decide, _, _, ha⟩, ha.passes_iff.mpr (by simp)⟩

theorem wellFormed_circled : Disk.circled.WellFormed :=
  wellFormed_of_wellFormedB (by decide)

theorem free_circled : Disk.circled.Free (stagingPath job.destination) := by
  intro s hs
  have hnamed : Disk.circled.named? (stagingPath job.destination) =
      some ⟨1, .ofString ".icon.png.partial"⟩ := by decide
  cases hnamed.symm.trans hs
  exact ⟨⟨0, by decide⟩, .inl (by decide)⟩

/-- The link that the picture replaces was needed to find its directory. -/
theorem run_circled (l : Libraries) (hargs : Understood l []) :
    Exits l [] none Disk.circled 0 ∧
      (run l [] none Disk.circled).2.content? job.destination = none ∧
      Exits l [] none (run l [] none Disk.circled).2 1 := by
  obtain ⟨image, hpaint⟩ := exists_paint
  have hd : Disk.circled.HasDirectoryAt job.directory := isDirectory_iff.mp (by decide)
  have hready : Disk.circled.Ready job.destination :=
    ⟨⟨1, .ofString "icon.png"⟩, ⟨1, .ofString ".icon.png.partial"⟩,
      ⟨by decide, by decide⟩, by decide, .inl (by decide),
      .inr ⟨.link (.ofString "."), by decide, rfl⟩⟩
  have hok := (value_writePicture_eq_ok_iff l.codec image wellFormed_circled free_circled).mpr
    ⟨proper_job.encodes hpaint, hready⟩
  obtain ⟨hdisk, hmade⟩ := run_work_of_hasDirectoryAt l.codec wellFormed_circled hpaint hd
  rw [hok] at hmade
  obtain ⟨r, hrun, hcode, houtput⟩ := run_of_made hargs (answers_none l) hmade
  have hsucceeded := succeeded wellFormed_circled hpaint hd (fun s hs => (free_circled s hs).2)
    hok hcode houtput (.inl rfl)
  obtain ⟨-, hlost, hagain⟩ := hsucceeded.lost circles_circled
  rw [Exits, hrun, hdisk]
  exact ⟨⟨r, rfl, hcode⟩, hlost, hagain [] none hargs (answers_none l)⟩

theorem wellFormed_lent : Disk.lent.WellFormed := wellFormed_of_wellFormedB (by decide)

theorem named?_staging_lent : Disk.lent.named? (stagingPath job.destination) =
    some ⟨2, .ofString ".icon.png.partial"⟩ := by decide

theorem kind?_lent : Disk.lent.kind? 4 = some (.file [] true) := by decide

theorem spare_lent : Disk.lent.Spare job.destination := by
  intro s hs
  cases named?_staging_lent.symm.trans hs
  exact .inr ⟨single_of_links (by decide) kind?_lent (by decide), [],
    by decide⟩

theorem not_mayChange_lent : ¬ Disk.lent.MayChange 2 := by
  rintro ⟨parent, hparent⟩
  have hsearch : Disk.lent.kind? 2 = some (.directory 1 .search) := by decide
  cases hsearch.symm.trans hparent

/-- The picture stays in the staging file, and the path of the icon leads there. -/
theorem run_lent (l : Libraries) (hargs : Understood l []) (hempty : l.codec.decode [] = none) :
    Exits l [] none Disk.lent 1 ∧ Disk.lent.content? job.destination = some [] ∧
      (run l [] none Disk.lent).2.content? job.destination ≠ some [] := by
  obtain ⟨image, hpaint⟩ := exists_paint
  have hencode : l.codec.Encodes image := proper_job.encodes hpaint
  have hbytes : l.codec.bytes image ≠ [] := fun h => by
    cases hempty.symm.trans (h ▸ hencode.decode_bytes)
  have hd : Disk.lent.HasDirectoryAt job.directory := isDirectory_iff.mp (by decide)
  have hbefore : Disk.lent.content? job.destination = some [] := by decide
  have htarget : Disk.lent.target? job.destination = some ⟨2, .ofString ".icon.png.partial"⟩ := by
    decide
  have htarget' : Disk.lent.target? (stagingPath job.destination) =
      some ⟨2, .ofString ".icon.png.partial"⟩ := by decide
  have hx : Disk.lent.named? job.destination = some ⟨2, .ofString "icon.png"⟩ := by decide
  have hat : Disk.lent.at? ⟨2, .ofString ".icon.png.partial"⟩ = some 4 := by decide
  have hkeeps : ¬ Keeps l.codec image job.destination Disk.lent :=
    not_keeps_of_unmoved wellFormed_lent hencode hbytes htarget' htarget hat hat kind?_lent
      named?_staging_lent hx not_mayChange_lent (by decide)
  obtain ⟨hdisk, hvalue⟩ := run_work_of_hasDirectoryAt l.codec wellFormed_lent hpaint hd
  cases hv : ((writePicture l.codec image job.destination).run Disk.lent).value with
  | ok u =>
    have hfree := free_of_value_eq_ok wellFormed_lent spare_lent.sole hv
    exact (not_mayChange_lent (hfree _ named?_staging_lent).1).elim
  | error failure =>
    rw [hv] at hvalue
    obtain ⟨r, hrun, hcode, -⟩ := run_of_failed hargs (answers_none l) hvalue
    refine ⟨⟨r, by rw [hrun], hcode⟩, hbefore, fun hsame => hkeeps ⟨fun hok => ?_, fun _ _ => ?_⟩⟩
    · cases hv.symm.trans hok
    · rw [← hdisk, hbefore, ← hsame, hrun]

/-- A run may take away the way to the icon that it made, and one that fails may change what is read
from a link to a staging file that it has to leave. -/
theorem not_repeatable_circled :
    (Disk.circled.WellFormed ∧ Disk.circled.Spare job.destination ∧
      Exits .standard [] none Disk.circled 0 ∧
      (run .standard [] none Disk.circled).2.content? job.destination = none ∧
      Exits .standard [] none (run .standard [] none Disk.circled).2 1) ∧
    Disk.lent.WellFormed ∧ Disk.lent.Spare job.destination ∧
      Exits .standard [] none Disk.lent 1 ∧
      Disk.lent.content? job.destination = some [] ∧
      (run .standard [] none Disk.lent).2.content? job.destination ≠ some [] := by
  have hargs : Understood .standard [] := ⟨0, rfl⟩
  have hspare : Disk.circled.Spare job.destination := by
    intro s hs
    have hnamed : Disk.circled.named? (stagingPath job.destination) =
        some ⟨1, .ofString ".icon.png.partial"⟩ := by decide +kernel
    cases hnamed.symm.trans hs
    exact .inl (by decide +kernel)
  have hempty : Png.codec.decode [] = none := rfl
  exact ⟨⟨wellFormed_circled, hspare, run_circled .standard hargs⟩, wellFormed_lent, spare_lent,
    run_lent .standard hargs hempty⟩

end Program

end IconPainter
