import IconPainter.Proofs.Delivery.Course
import IconPainter.Proofs.Log.Levels

/-! # What a delivery tells

Each event comes right after the step that it is about: that a directory is
there, that a picture is stored, that it is in its place. The clearing away of a
staging file tells nothing, but for a warning that the file is left behind.
-/

namespace IconPainter

open Delivery

/-- Every step of storing a picture in a file goes well: the file is opened, the picture is
encoded, all of it is written, and the file is synced. -/
def Disk.Stores (d : Disk) (codec : Codec) (image : Raster) (s : Path) : Prop :=
  ∃ file opened filled synced, d.create s = .ok (file, opened) ∧ codec.Encodes image ∧
    (codec.encoder image).written.foldlM (fun e piece => e.append file piece) opened =
      .ok filled ∧
    filled.sync file = .ok synced

/-- The warnings are none, or the one that the staging file of a path was left behind. -/
def Warns (p : Path) (warnings : List Event) : Prop :=
  warnings = [] ∨ ∃ cause, warnings = [leftBehind (stagingPath p) cause]

/-! ### Scripts -/

namespace Script

variable {α β : Type}

def told (s : Script α) (d : Disk) : List Event := (s.run d).events.map Event.bare

theorem told_done (a : α) (d : Disk) : (done a).told d = [] := rfl

theorem told_note (e : Event) (next : Script α) (d : Disk) :
    (note e next).told d = e.bare :: next.told d := rfl

theorem told_bind (s : Script α) (f : α → Script β) (d : Disk) :
    (s.bind f).told d = s.told d ++ (f (s.run d).value).told (s.run d).disk := by
  rw [told, events_run_bind, List.map_append]
  rfl

theorem told_within (sp : Span) (s : Script α) (d : Disk) : (s.within sp).told d = s.told d := by
  rw [told, run_within, List.map_map]
  rfl

theorem told_of_events {s : Script α} {d : Disk} (h : (s.run d).events = []) : s.told d = [] := by
  rw [told, h, List.map_nil]

end Script

/-! ### Directories -/

variable {codec : Codec} {image : Raster} {d : Disk} {p : Path}

theorem events_run_acceptDirectory (p : Path) (cause : OsError) (d : Disk) :
    ((acceptDirectory p cause).run d).events = [] := by
  simp only [acceptDirectory, Script.run, Disk.answer]
  cases d.isDirectory p <;> rfl

theorem events_run_makeOne (p : Path) (d : Disk) : ((makeOne p).run d).events = [] := by
  simp only [makeOne, Script.run, Disk.answer]
  cases d.makeDirectory p with
  | ok e => rfl
  | error cause => exact events_run_acceptDirectory p cause d

theorem events_run_makeAll (ps : List Path) (d : Disk) : ((makeAll ps).run d).events = [] := by
  induction ps generalizing d with
  | nil => rfl
  | cons p above ih =>
    rw [makeAll]
    split
    · rfl
    simp only [Script.run, Disk.answer]
    cases d.makeDirectory p with
    | ok e => rfl
    | error cause =>
      cases cause with
      | noEntry =>
        simp only [Disk.settle, Script.events_run_bind, ih, List.nil_append]
        cases ((makeAll above).run d).value with
        | ok u => exact events_run_makeOne p _
        | error cause => rfl
      | _ => exact events_run_acceptDirectory p _ d

theorem told_prepareDirectory (p : Path) (d : Disk) :
    (((prepareDirectory p).run d).value = .ok () ∧
        (prepareDirectory p).told d = [directoryReady p]) ∨
      ((∃ f, ((prepareDirectory p).run d).value = .error f) ∧
        (prepareDirectory p).told d = []) := by
  have hmade := Script.told_of_events (events_run_makeAll (p :: p.ancestors) d)
  simp only [prepareDirectory, Script.run_within, Script.told_within, Script.value_run_bind,
    Script.told_bind, hmade, List.nil_append]
  cases ((makeAll (p :: p.ancestors)).run d).value with
  | ok u => exact .inl ⟨rfl, rfl⟩
  | error cause => exact .inr ⟨⟨_, rfl⟩, rfl⟩

/-! ### Pictures -/

section Storing

open Disk

variable {file : FileId} {e : Disk} {c : Bytes}

theorem kind?_of_create (h : d.create p = .ok (file, e)) :
    e.kind? file = some (.file [] true) ∨ ∃ takes, e.kind? file = some (.device takes) := by
  obtain ⟨⟨dir, last, slash⟩, -, h⟩ := bind_eq_ok_iff.mp h
  simp only at h
  split at h
  · rename_i name
    obtain ⟨found, hfound, h⟩ := bind_eq_ok_iff.mp h
    have hkind {id node} (hf : found = some (id, node)) : d.kind? id = some node.kind :=
      kind?_of_node? ((lookup_eq_ok_some_iff (e := ⟨dir, name⟩)).mp (hf ▸ hfound)).2.2.2
    split at h
    · obtain ⟨u, -, h⟩ := bind_eq_ok_iff.mp h
      cases h
      exact .inl (by rw [kind?_addEntry, Function.update_self]; rfl)
    · cases h
      exact .inl (by rw [kind?_setNode d _ _ (by simp [hkind rfl]), Function.update_self]; rfl)
    · contradiction
    · cases h
      exact .inr ⟨_, hkind rfl⟩
    · contradiction
    · contradiction
  · contradiction

theorem Takes.foldlM {Has : Bytes → Disk → Prop} (h : Takes file Has) (hc : Has c e)
    (pieces : List Bytes) :
    ∃ c' filled, pieces.foldlM (fun e piece => e.append file piece) e = .ok filled ∧
      Has c' filled := by
  induction pieces generalizing c e with
  | nil => exact ⟨c, e, rfl, hc⟩
  | cons piece pieces ih =>
    obtain ⟨e', happend, hc'⟩ := h c e piece hc
    obtain ⟨c'', filled, hfilled, hc''⟩ := ih hc'
    refine ⟨c'', filled, ?_, hc''⟩
    rw [List.foldlM_cons, happend]
    exact hfilled

theorem foldlM_device {takes : Bool} {filled : Disk} (hd : d.kind? file = some (.device takes))
    {pieces : List Bytes}
    (h : pieces.foldlM (fun e piece => e.append file piece) d = .ok filled) : filled = d := by
  induction pieces with
  | nil => exact (Except.ok.inj h).symm
  | cons piece pieces ih =>
    rw [List.foldlM_cons] at h
    obtain ⟨e, happend, h⟩ := bind_eq_ok_iff.mp h
    cases takes with
    | false => simp [append, node?_of_kind?_device hd] at happend
    | true =>
      simp only [append, node?_of_kind?_device hd, Except.ok.injEq] at happend
      subst happend
      exact ih h

/-- That a picture is stored is told exactly if all steps of storing it went well. -/
theorem run_store_cases (codec : Codec) (image : Raster) (s : Path) (d : Disk) :
    let run := (store codec image s).run d
    (d.Stores codec image s ∧ run.value = .ok () ∧ run.events = [encoded s]) ∨
      (¬ d.Stores codec image s ∧ (∃ f, run.value = .error f) ∧ run.events = []) := by
  simp only [store, Script.run, Disk.answer]
  cases hc : d.create s with
  | error cause => exact .inr ⟨by simp [Disk.Stores, hc], ⟨_, rfl⟩, rfl⟩
  | ok opened =>
    obtain ⟨file, e⟩ := opened
    rcases kind?_of_create hc with hfile | ⟨takes, hdevice⟩
    · have htakes := takes_of_kind? file
      obtain ⟨-, -, hcases⟩ := htakes.run_fill (fun _ _ => sync_file) codec image s hfile
      rcases hcases with ⟨hencode, hv, hevents⟩ | ⟨hencode, hv, hevents⟩
      · obtain ⟨c, filled, hfilled, hc'⟩ := htakes.foldlM hfile (codec.encoder image).written
        exact .inl ⟨⟨file, e, filled, _, hc, hencode, hfilled, sync_file hc'⟩, hv, hevents⟩
      · refine .inr ⟨?_, hv, hevents⟩
        rintro ⟨_, _, _, _, _, h, _⟩
        exact hencode h
    · obtain ⟨-, -, hv, hevents⟩ := run_fill_device codec image s hdevice
      refine .inr ⟨?_, hv, hevents⟩
      rintro ⟨file', e', filled, synced, hc', -, hfilled, hsync⟩
      cases hc.symm.trans hc'
      rw [foldlM_device hdevice hfilled, sync_device hdevice] at hsync
      contradiction

end Storing

theorem warns_cleanUp (p : Path) (f : Failure) (d : Disk) :
    Warns p ((cleanUp (stagingPath p) f).told d) := by
  simp only [Script.told, cleanUp, Script.run, Disk.answer]
  cases d.remove (stagingPath p) with
  | ok e => exact .inl rfl
  | error cause =>
    simp only [Disk.settle, Script.run, Disk.answer]
    cases d.isThere (stagingPath p) with
    | true => exact .inr ⟨cause, rfl⟩
    | false => exact .inl rfl

/-- A delivery tells that the picture is stored and that it is in its place, as far as it came,
and it warns only if it failed. -/
theorem told_writePicture (codec : Codec) (image : Raster) (p : Path) (d : Disk) :
    (d.Stores codec image (stagingPath p) ∧ ((writePicture codec image p).run d).value = .ok () ∧
        (writePicture codec image p).told d = [encoded (stagingPath p), wrote p]) ∨
      ∃ f warnings, ((writePicture codec image p).run d).value = .error f ∧ Warns p warnings ∧
        ((d.Stores codec image (stagingPath p) ∧
            (writePicture codec image p).told d = encoded (stagingPath p) :: warnings) ∨
          (¬ d.Stores codec image (stagingPath p) ∧
            (writePicture codec image p).told d = warnings)) := by
  simp only [writePicture, Script.run_within, Script.told_within, Script.value_run_bind,
    Script.told_bind]
  generalize ((store codec image (stagingPath p)).run d).disk = e
  have hcleaned (f : Failure) := warns_cleanUp p f e
  rcases run_store_cases codec image (stagingPath p) d with
    ⟨hstores, hv, hevents⟩ | ⟨hstores, ⟨f, hv⟩, hevents⟩
  · simp only [hv, Script.told, hevents, Script.run, Disk.answer]
    cases e.rename (stagingPath p) p with
    | ok e' => exact .inl ⟨hstores, rfl, rfl⟩
    | error cause =>
      exact .inr ⟨_, _, (run_cleanUp ..).1, hcleaned (.move p cause), .inl ⟨hstores, rfl⟩⟩
  · rw [hv, Script.told_of_events hevents]
    exact .inr ⟨f, _, (run_cleanUp ..).1, hcleaned f, .inr ⟨hstores, rfl⟩⟩

end IconPainter
