import IconPainter.Delivery
import IconPainter.Proofs.Delivery.Buffer
import IconPainter.Proofs.Disk.Change

/-! # The course of a delivery

While a picture is written, the disk differs from the one before in one file
alone, the one that the staging path leads to. Then either that path's own entry
is moved, or it is taken away.
-/

namespace IconPainter

open Delivery

namespace Disk

/-- The disk `d'` is the disk `d` with these bytes in the file `file`, which has or gets
the entry `t`. -/
structure Written (d : Disk) (t : Entry) (file : NodeId) (bytes : Bytes) (d' : Disk) : Prop where
  was : (d.at? t = none ∧ d.kind? file = none ∧ d.MayChange t.directory) ∨
    (d.at? t = some file ∧ ∃ c, d.kind? file = some (.file c true))
  working : d'.working = d.working
  kind? : d'.kind? = Function.update d.kind? file (some (.file bytes true))
  at? : d'.at? = Function.update d.at? t (some file)
  wellFormed : d'.WellFormed

def cleared (d : Disk) (p : Path) : Disk := (d.settle (d.remove p)).2

/-- Opening the path for writing opens a file at the entry, or makes one. -/
def OpensFile (d : Disk) (p : Path) (t : Entry) : Prop :=
  d.target? p = some t ∧
    ((d.at? t = none ∧ d.MayChange t.directory) ∨ ∃ c, d.kindAt? t = some (.file c true))

variable {d d' e : Disk} {t : Entry} {file : NodeId} {c bytes : Bytes} {p : Path}

theorem Creates.written (hw : d.WellFormed) (h : d.Creates p file d') :
    (∃ t, d.target? p = some t ∧ d.Written t file [] d') ∨
      (d' = d ∧ ∃ t takes, d.target? p = some t ∧ d.at? t = some file ∧
        d.kind? file = some (.device takes)) := by
  have hwf := h.wellFormed hw
  cases h with
  | @new t ht hat hc =>
    exact .inl ⟨t, ht, .inl ⟨hat, kind?_eq_none_of_size_le (Nat.le_refl _), hc⟩,
      working_addEntry d _ _ _, kind?_addEntry d _ _ _,
      at?_addEntry hc.searchable.hasDirectory (by rintro _ _ ⟨⟩), hwf⟩
  | @emptied t _ c ht hat hk =>
    refine .inl ⟨t, ht, .inr ⟨hat, c, hk⟩, rfl, kind?_setNode d _ _ (by simp [hk]), ?_, hwf⟩
    rw [at?_setNode d _ _ (not_hasDirectory_of_kind? hk rfl) (by simp [Node.isDirectory]), ← hat,
      Function.update_eq_self]
  | device ht hat hk => exact .inr ⟨rfl, _, _, ht, hat, hk⟩

theorem Written.opensFile (hwr : d.Written t file c e) (ht : d.target? p = some t) :
    d.OpensFile p t := by
  refine ⟨ht, ?_⟩
  rcases hwr.was with ⟨hnone, -, hchange⟩ | ⟨hat, c₀, hk⟩
  · exact .inl ⟨hnone, hchange⟩
  · exact .inr ⟨c₀, kindAt?_eq_some_iff.mpr ⟨file, hat, hk⟩⟩

theorem OpensFile.exists_creates (h : d.OpensFile p t) :
    ∃ file d', d.Creates p file d' := by
  obtain ⟨ht, ⟨hnone, hchange⟩ | ⟨c, hk⟩⟩ := h
  · exact ⟨_, _, .new ht hnone hchange⟩
  · obtain ⟨file, hat, hk⟩ := kindAt?_eq_some_iff.mp hk
    exact ⟨_, _, .emptied ht hat hk⟩

theorem node?_of_kind?_file {w : Bool} (h : d.kind? file = some (.file c w)) :
    d.node? file = some (.file c w) := by
  obtain ⟨node, hn, hk⟩ := Option.map_eq_some_iff.mp h
  cases node <;> cases hk
  exact hn

theorem node?_of_kind?_device {takes : Bool} (h : d.kind? file = some (.device takes)) :
    d.node? file = some (.device takes) := by
  obtain ⟨node, hn, hk⟩ := Option.map_eq_some_iff.mp h
  cases node <;> cases hk
  exact hn

theorem append_file (h : d.kind? file = some (.file c true)) (bytes : Bytes) :
    d.append file bytes = .ok (d.setNode file (.file (c ++ bytes) true)) := by
  simp only [append, node?_of_kind?_file h]

theorem sync_file (h : d.kind? file = some (.file c true)) : d.sync file = .ok d := by
  simp only [sync, node?_of_kind?_file h]

theorem sync_device {takes : Bool} (h : d.kind? file = some (.device takes)) :
    d.sync file = .error .invalid := by
  simp only [sync, node?_of_kind?_device h]

theorem takes_of_kind? (file : FileId) :
    Takes file fun c e => e.kind? file = some (.file c true) := by
  intro c e piece h
  refine ⟨_, append_file h piece, ?_⟩
  simp only [kind?_setNode e file _ (by simp [h]), Function.update_self]
  rfl

theorem Written.kind?_file (h : d.Written t file bytes e) :
    e.kind? file = some (.file bytes true) := by
  rw [h.kind?, Function.update_self]

theorem Written.setNode (h : d.Written t file c e) (bytes : Bytes) :
    d.Written t file bytes (e.setNode file (.file bytes true)) := by
  have hk : e.kind? file = some (.file c true) := by rw [h.kind?, Function.update_self]
  have hd := not_hasDirectory_of_kind? hk rfl
  refine ⟨h.was, h.working, ?_, ?_, h.wellFormed.setNode hk rfl rfl⟩
  · rw [kind?_setNode e _ _ (by simp [hk]), h.kind?, Function.update_idem]
    rfl
  · rw [at?_setNode e _ _ hd (by simp [Node.isDirectory]), h.at?]

theorem Written.takes (d : Disk) (t : Entry) (file : NodeId) : Takes file (d.Written t file) := by
  intro c e piece h
  exact ⟨_, append_file h.kind?_file piece, h.setNode (c ++ piece)⟩

end Disk

/-! ### Storing -/

open Disk

variable {codec : Codec} {image : Raster} {d e : Disk} {t : Entry} {file : NodeId} {c : Bytes}
  {p s : Path}

theorem Takes.run_fill {Has : Bytes → Disk → Prop} (h : Takes file Has)
    (hsync : ∀ c e, Has c e → e.sync file = .ok e) (codec : Codec) (image : Raster) (s : Path)
    (hc : Has [] e) :
    let run := (fill codec image s file).run e
    Has (codec.bytes image) run.disk ∧ (∀ e' ∈ run.states, ∃ c, Has c e') ∧
      ((codec.Encodes image ∧ run.value = .ok () ∧ run.events = [encoded s]) ∨
        (¬ codec.Encodes image ∧ (∃ f, run.value = .error f) ∧ run.events = [])) := by
  obtain ⟨hfull, hcases⟩ := h.run_encode hc codec image s
  have happends := appends_encode codec image s file
  have hstates := (happends.invariant (P := fun e => ∃ c, Has c e)
    (fun e bytes => h.settle bytes) ⟨_, hc⟩).2
  simp only [fill, Script.value_run_bind, Script.disk_run_bind, Script.mem_states_run_bind,
    Script.events_run_bind, happends.events_run]
  rcases hcases with ⟨hencode, hv⟩ | ⟨hencode, f, hv⟩
  · simp only [hv, Script.run, Disk.answer, hsync _ _ hfull, Disk.settle, List.mem_cons,
      List.not_mem_nil, or_false, or_self]
    refine ⟨hfull, ?_, .inl ⟨hencode, trivial, rfl⟩⟩
    rintro e' (he | rfl)
    · exact hstates e' he
    · exact ⟨_, hfull⟩
  · simp only [hv, Script.run, List.mem_singleton]
    refine ⟨hfull, ?_, .inr ⟨hencode, ⟨_, rfl⟩, rfl⟩⟩
    rintro e' (he | rfl)
    · exact hstates e' he
    · exact ⟨_, hfull⟩

/-- A device stays as it is, whatever is written to it, and is never synced, so storing a picture
there fails. -/
theorem run_fill_device {takes : Bool} (codec : Codec) (image : Raster) (s : Path)
    (h : d.kind? file = some (.device takes)) :
    let run := (fill codec image s file).run d
    run.disk = d ∧ (∀ e ∈ run.states, e = d) ∧ (∃ f, run.value = .error f) ∧ run.events = [] := by
  have hsync := sync_device h
  have happends := appends_encode codec image s file
  obtain ⟨hdisk, hstates⟩ := happends.invariant (P := (· = d)) (fun e bytes he => by
    rw [he, append, node?_of_kind?_device h]
    cases takes <;> rfl) rfl
  simp only [fill, Script.value_run_bind, Script.disk_run_bind, Script.mem_states_run_bind,
    Script.events_run_bind, happends.events_run, hdisk]
  cases ((encode codec image s file).run d).value with
  | error f =>
    refine ⟨rfl, ?_, ⟨_, rfl⟩, rfl⟩
    rintro e (he | he)
    · exact hstates e he
    · exact List.mem_singleton.mp he
  | ok u =>
    simp only [Script.run, Disk.answer, hsync, Disk.settle, List.mem_cons, List.not_mem_nil,
      or_false, or_self]
    refine ⟨trivial, ?_, ⟨_, rfl⟩, rfl⟩
    rintro e (he | he)
    · exact hstates e he
    · exact he

/-- How storing a picture can end, and with which disk. -/
inductive Stored (codec : Codec) (image : Raster) (d : Disk) (s : Path) :
    Except Failure Unit → Disk → Prop where

  | refused (f : Failure) : (∀ file d', ¬ d.Creates s file d') →
      Stored codec image d s (.error f) d

  | device (f : Failure) {t : Entry} {takes : Bool} : d.target? s = some t →
      d.kindAt? t = some (.device takes) → Stored codec image d s (.error f) d

  | unencoded (f : Failure) {t : Entry} {file : FileId} {e : Disk} : d.target? s = some t →
      d.Written t file codec.ending e → ¬ codec.Encodes image →
      Stored codec image d s (.error f) e

  | stored {t : Entry} {file : FileId} {e : Disk} : d.target? s = some t →
      d.Written t file (codec.bytes image) e → codec.Encodes image →
      Stored codec image d s (.ok ()) e

def Storing (d : Disk) (s : Path) (e : Disk) : Prop :=
  e = d ∨ ∃ t file c, d.target? s = some t ∧ d.Written t file c e

/-- All of a run of storing a picture: how it ends, and what it passes through. -/
theorem run_store (codec : Codec) (image : Raster) (s : Path) (hw : d.WellFormed) :
    Stored codec image d s ((store codec image s).run d).value ((store codec image s).run d).disk ∧
      ∀ e ∈ ((store codec image s).run d).states, Storing d s e := by
  cases hc : d.create s with
  | error cause =>
    have hno file d' : ¬ d.Creates s file d' := by
      intro h
      rw [h.create_eq hw] at hc
      contradiction
    simp only [store, Script.run, Disk.answer, hc]
    exact ⟨.refused _ hno, fun e he => .inl (by simpa using he)⟩
  | ok opened =>
    obtain ⟨file, d'⟩ := opened
    simp only [store, Script.run, Disk.answer, hc, List.mem_cons]
    rcases (creates_of_create hw hc).written hw with
      ⟨t, ht, hwr⟩ | ⟨rfl, t, takes, ht, hat, hk⟩
    · obtain ⟨hfull, hstates, hcases⟩ :=
        (Written.takes d t file).run_fill (fun _ _ h => sync_file h.kind?_file) codec image s hwr
      constructor
      · rcases hcases with ⟨hencode, hv, -⟩ | ⟨hencode, ⟨f, hv⟩, -⟩
        · rw [hv]
          exact .stored ht hfull hencode
        · obtain ⟨message, hmessage⟩ := Codec.exists_error_of_not_encodes hencode
          rw [hv]
          exact .unencoded _ ht (Codec.bytes_of_error hmessage ▸ hfull) hencode
      · rintro e (rfl | he)
        · exact .inl rfl
        · obtain ⟨c, hwr⟩ := hstates e he
          exact .inr ⟨t, file, c, ht, hwr⟩
    · obtain ⟨hd, hstates, ⟨f, hv⟩, -⟩ := run_fill_device codec image s hk
      rw [hv, hd]
      refine ⟨.device _ ht (kindAt?_eq_some_iff.mpr ⟨file, hat, hk⟩), ?_⟩
      rintro e (rfl | he)
      · exact .inl rfl
      · exact .inl (hstates e he)

theorem Stored.of_opensFile {s : Path} {t : Entry} {r : Except Failure Unit} {e : Disk}
    (hstored : Stored codec image d s r e) (h : d.OpensFile s t) : ∃ file c, d.Written t file c e ∧
      (((∃ f, r = .error f) ∧ c = codec.ending ∧ ¬ codec.Encodes image) ∨
        (r = .ok () ∧ c = codec.bytes image ∧ codec.Encodes image)) := by
  cases hstored with
  | refused f hno =>
    obtain ⟨file, d', hc⟩ := h.exists_creates
    exact (hno _ _ hc).elim
  | device f ht hk =>
    obtain ⟨ht', ⟨hnone, -⟩ | ⟨c, hkc⟩⟩ := h
    · cases ht.symm.trans ht'
      simp [kindAt?, hnone] at hk
    · cases ht.symm.trans ht'
      cases hk.symm.trans hkc
  | unencoded f ht hwr hencode =>
    cases h.1.symm.trans ht
    exact ⟨_, _, hwr, .inl ⟨⟨f, rfl⟩, rfl, hencode⟩⟩
  | stored ht hwr hencode =>
    cases h.1.symm.trans ht
    exact ⟨_, _, hwr, .inr ⟨rfl, rfl, hencode⟩⟩

/-! ### Clearing away -/

theorem Disk.cleared_of_removes {d' : Disk} (h : d.Removes s d') : d.cleared s = d' := by
  rw [cleared, h.remove_eq]
  rfl

theorem Disk.cleared_of_not_removes (h : ∀ d', ¬ d.Removes s d') : d.cleared s = d := by
  rw [cleared]
  cases hr : d.remove s with
  | error e => rfl
  | ok d' => exact (h d' (removes_of_remove hr)).elim

theorem run_cleanUp (s : Path) (f : Failure) (d : Disk) : ((cleanUp s f).run d).value = .error f ∧
    ((cleanUp s f).run d).disk = d.cleared s ∧
      ∀ e ∈ ((cleanUp s f).run d).states, e = d ∨ e = d.cleared s := by
  cases hr : d.remove s with
  | ok d' =>
    simp only [cleanUp, Script.run, Disk.answer, Disk.cleared, hr, Disk.settle]
    exact ⟨trivial, trivial, by simp⟩
  | error cause =>
    simp only [cleanUp, Script.run, Disk.answer, Disk.cleared, hr, Disk.settle]
    cases d.isThere s <;>
    · simp only [Script.run]
      exact ⟨trivial, trivial, by simp⟩

/-- How writing a picture can end, and with which disk. -/
inductive Course (codec : Codec) (image : Raster) (d : Disk) (p : Path) :
    Except Failure Unit → Disk → Prop where

  | unstored {f : Failure} {e : Disk} : Stored codec image d (stagingPath p) (.error f) e →
      Course codec image d p (.error f) (e.cleared (stagingPath p))

  | unmoved {f : Failure} {e : Disk} : Stored codec image d (stagingPath p) (.ok ()) e →
      (∀ d', ¬ e.Renames (stagingPath p) p d') →
      Course codec image d p (.error f) (e.cleared (stagingPath p))

  | moved {e d' : Disk} : Stored codec image d (stagingPath p) (.ok ()) e →
      e.Renames (stagingPath p) p d' → Course codec image d p (.ok ()) d'

theorem Stored.wellFormed {r : Except Failure Unit} (hw : d.WellFormed)
    (h : Stored codec image d s r e) : e.WellFormed := by
  cases h with
  | refused => exact hw
  | device => exact hw
  | unencoded _ _ hwritten => exact hwritten.wellFormed
  | stored _ hwritten => exact hwritten.wellFormed

theorem run_writePicture (codec : Codec) (image : Raster) (p : Path) (hw : d.WellFormed) :
    Course codec image d p ((writePicture codec image p).run d).value
      ((writePicture codec image p).run d).disk := by
  simp only [writePicture, Script.run_within, Script.value_run_bind, Script.disk_run_bind]
  have hstore := (run_store codec image (stagingPath p) hw).1
  generalize ((store codec image (stagingPath p)).run d).disk = e at hstore
  cases hv : ((store codec image (stagingPath p)).run d).value with
  | error f =>
    obtain ⟨hvalue, hdisk, -⟩ := run_cleanUp (stagingPath p) f e
    rw [hv] at hstore
    simp only [hvalue, hdisk]
    exact .unstored hstore
  | ok u =>
    rw [hv] at hstore
    have hwe := hstore.wellFormed hw
    cases hr : e.rename (stagingPath p) p with
    | error cause =>
      obtain ⟨hvalue, hdisk, -⟩ :=
        run_cleanUp (stagingPath p) (.move p cause) e
      simp only [Script.run, Disk.answer, hr, Disk.settle, hvalue, hdisk]
      refine .unmoved hstore ?_
      intro d' h
      rw [h.rename_eq hwe] at hr
      contradiction
    | ok d' =>
      simp only [Script.run, Disk.answer, hr, Disk.settle]
      exact .moved hstore (renames_of_rename hwe hr)

/-- The disks that writing a picture passes through: the picture is moved in the last step or
not at all, and what comes before is the disk while it is stored or after it was cleared. -/
theorem states_writePicture (codec : Codec) (image : Raster) (p : Path) (hw : d.WellFormed) :
    ((∃ f, ((writePicture codec image p).run d).value = .error f) ∧
      ∀ e ∈ ((writePicture codec image p).run d).states, ∃ e', Storing d (stagingPath p) e' ∧
        (e = e' ∨ e = e'.cleared (stagingPath p))) ∨
    (((writePicture codec image p).run d).value = .ok () ∧
      ((store codec image (stagingPath p)).run d).value = .ok () ∧
      ∃ e d', Stored codec image d (stagingPath p) (.ok ()) e ∧ e.Renames (stagingPath p) p d' ∧
        ((writePicture codec image p).run d).states =
          ((store codec image (stagingPath p)).run d).states ++ [d']) := by
  obtain ⟨hstore, hstates⟩ := run_store codec image (stagingPath p) hw
  have hlast := Script.dropLast_states_run (store codec image (stagingPath p)) d
  have hdisk := hstates _ (Script.disk_mem_states_run (store codec image (stagingPath p)) d)
  have hcleared {e} (he : e = ((store codec image (stagingPath p)).run d).disk ∨
      e = ((store codec image (stagingPath p)).run d).disk.cleared (stagingPath p)) :
      ∃ e', Storing d (stagingPath p) e' ∧ (e = e' ∨ e = e'.cleared (stagingPath p)) :=
    ⟨_, hdisk, he⟩
  have hbefore {e} (he : e ∈ ((store codec image (stagingPath p)).run d).states.dropLast) :
      ∃ e', Storing d (stagingPath p) e' ∧ (e = e' ∨ e = e'.cleared (stagingPath p)) :=
    ⟨e, hstates e (List.dropLast_subset _ he), .inl rfl⟩
  simp only [writePicture, Script.run_within, Script.value_run_bind, Script.states_run_bind]
  generalize ((store codec image (stagingPath p)).run d).states = states at *
  generalize ((store codec image (stagingPath p)).run d).disk = e at *
  cases hv : ((store codec image (stagingPath p)).run d).value with
  | error f =>
    obtain ⟨hvalue, -, hclean⟩ := run_cleanUp (stagingPath p) f e
    refine .inl ⟨⟨f, hvalue⟩, ?_⟩
    intro e' he
    rcases List.mem_append.mp he with he | he
    · exact hbefore he
    · exact hcleared (hclean e' he)
  | ok u =>
    rw [hv] at hstore
    cases hr : e.rename (stagingPath p) p with
    | error cause =>
      obtain ⟨hvalue, -, hclean⟩ := run_cleanUp (stagingPath p) (.move p cause) e
      simp only [Script.run, Disk.answer, hr, Disk.settle]
      refine .inl ⟨⟨_, hvalue⟩, ?_⟩
      intro e' he
      rcases List.mem_append.mp he with he | he
      · exact hbefore he
      rcases List.mem_cons.mp he with rfl | he
      · exact hcleared (.inl rfl)
      · exact hcleared (hclean e' he)
    | ok d' =>
      simp only [Script.run, Disk.answer, hr, Disk.settle]
      exact .inr ⟨trivial, trivial, e, d', hstore, renames_of_rename (hstore.wellFormed hw) hr,
        hlast [d']⟩

theorem run_unencodable (hw : d.WellFormed) (p : Path) (hencode : ¬ codec.Encodes image) :
    ∃ f e, ((writePicture codec image p).run d).value = .error f ∧
      ((writePicture codec image p).run d).disk = e.cleared (stagingPath p) ∧
      Stored codec image d (stagingPath p) (.error f) e := by
  have hcourse := run_writePicture codec image p hw
  generalize ((writePicture codec image p).run d).value = r at hcourse
  generalize ((writePicture codec image p).run d).disk = f at hcourse
  cases hcourse with
  | unstored hstored => exact ⟨_, _, rfl, rfl, hstored⟩
  | unmoved hstored =>
    cases hstored with
    | stored _ _ h => exact (hencode h).elim
  | moved hstored =>
    cases hstored with
    | stored _ _ h => exact (hencode h).elim

theorem run_encodable {t : Entry} (hw : d.WellFormed) (hencode : codec.Encodes image)
    (ht : d.OpensFile (stagingPath p) t) :
    ∃ file e, d.Written t file (codec.bytes image) e ∧
      ((∃ f, ((writePicture codec image p).run d).value = .error f ∧
          ((writePicture codec image p).run d).disk = e.cleared (stagingPath p) ∧
          ∀ d', ¬ e.Renames (stagingPath p) p d') ∨
        (((writePicture codec image p).run d).value = .ok () ∧
          e.Renames (stagingPath p) p ((writePicture codec image p).run d).disk)) := by
  have hcourse := run_writePicture codec image p hw
  generalize ((writePicture codec image p).run d).value = r at hcourse
  generalize ((writePicture codec image p).run d).disk = f at hcourse
  cases hcourse with
  | unstored hstored =>
    obtain ⟨file, c, -, ⟨-, -, hno⟩ | ⟨h, -⟩⟩ := hstored.of_opensFile ht
    · exact (hno hencode).elim
    · contradiction
  | unmoved hstored hno =>
    obtain ⟨file, c, hwr, ⟨⟨f, h⟩, -⟩ | ⟨-, rfl, -⟩⟩ := hstored.of_opensFile ht
    · contradiction
    · exact ⟨file, _, hwr, .inl ⟨_, rfl, rfl, hno⟩⟩
  | moved hstored hrename =>
    obtain ⟨file, c, hwr, ⟨⟨f, h⟩, -⟩ | ⟨-, rfl, -⟩⟩ := hstored.of_opensFile ht
    · contradiction
    · exact ⟨file, _, hwr, .inr ⟨rfl, hrename⟩⟩

end IconPainter
