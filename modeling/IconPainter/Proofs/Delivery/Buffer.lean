import Mathlib.Tactic.SplitIfs
import IconPainter.Delivery
import IconPainter.Disk.Run

/-! # What a buffered encoder leaves in a file

An encoder and its buffer do nothing but append to one file. Where the file takes
what is appended, its bytes and those that the buffer holds are at every moment all
that was written.
-/

namespace IconPainter

namespace Script

variable {α β : Type} {s : Script α} {f : α → Script β} {file : FileId} {d : Disk}

/-- All that the script does is to append to one file. -/
inductive Appends (file : FileId) : Script α → Prop where

  | done (a : α) : Appends file (.done a)

  | append (bytes : Bytes) {next : Except OsError Unit → Script α} :
      (∀ r, Appends file (next r)) → Appends file (.ask (.append file bytes) next)

namespace Appends

theorem bind (h : s.Appends file) (hf : ∀ a, (f a).Appends file) : (s.bind f).Appends file := by
  induction h with
  | done a => exact hf a
  | append bytes _ ih => exact .append bytes ih

theorem events_run (h : s.Appends file) (d : Disk) : (s.run d).events = [] := by
  induction h generalizing d with
  | done a => rfl
  | append bytes _ ih => exact ih _ _

theorem invariant {P : Disk → Prop} (h : s.Appends file)
    (hP : ∀ e bytes, P e → P (e.settle (e.append file bytes)).2) (hd : P d) :
    P (s.run d).disk ∧ ∀ e ∈ (s.run d).states, P e := by
  induction h generalizing d with
  | done a => exact ⟨hd, fun e he => List.mem_singleton.mp he ▸ hd⟩
  | append bytes _ ih =>
    obtain ⟨hdisk, hstates⟩ := ih (d.settle (d.append file bytes)).1 (hP d bytes hd)
    refine ⟨hdisk, fun e he => ?_⟩
    rcases List.mem_cons.mp he with rfl | he
    · exact hd
    · exact hstates e he

end Appends

end Script

open Script Delivery

variable {file : FileId}

/-! ### Appending -/

theorem appends_flush (file : FileId) (held : Bytes) : (Buffer.flush file held).Appends file := by
  unfold Buffer.flush
  split
  · exact .done _
  · exact .append held fun r => by cases r <;> exact .done _

theorem appends_place (file : FileId) (held piece : Bytes) :
    (Buffer.place file held piece).Appends file := by
  unfold Buffer.place
  split
  · exact .append piece fun r => .done _
  · exact .done _

theorem appends_take (file : FileId) (held piece : Bytes) :
    (Buffer.take file held piece).Appends file := by
  unfold Buffer.take
  split_ifs
  · exact .done _
  · exact appends_place ..
  · refine (appends_flush file held).bind ?_
    rintro ⟨_ | _, held⟩
    · exact .done _
    · exact appends_place ..

theorem appends_drive (file : FileId) (encoder : Encoder) (held : Bytes) :
    (encoder.drive file held).Appends file := by
  induction encoder generalizing held with
  | stop result => exact .done _
  | write piece next ih => exact (appends_take file held piece).bind fun r => ih r.1 r.2

theorem appends_encode (codec : Codec) (image : Raster) (p : Path) (file : FileId) :
    (encode codec image p file).Appends file := by
  refine (appends_drive file _ []).bind ?_
  rintro ⟨_ | _, held⟩
  · exact (appends_flush file held).bind fun _ => .done _
  · refine (appends_flush file held).bind ?_
    rintro ⟨_ | _, held⟩
    · exact (appends_flush file held).bind fun _ => .done _
    · exact .done _

/-! ### Files that take everything -/

/-- The file takes what is appended to it; `Has c` says of a disk that the file has the bytes `c`
there. -/
def Takes (file : FileId) (Has : Bytes → Disk → Prop) : Prop :=
  ∀ c e piece, Has c e → ∃ e', e.append file piece = .ok e' ∧ Has (c ++ piece) e'

namespace Takes

variable {Has : Bytes → Disk → Prop} {c : Bytes} {e : Disk}

theorem settle (h : Takes file Has) (bytes : Bytes) (hc : ∃ c, Has c e) :
    ∃ c, Has c (e.settle (e.append file bytes)).2 := by
  obtain ⟨c, hc⟩ := hc
  obtain ⟨e', happend, hc'⟩ := h c e bytes hc
  rw [happend]
  exact ⟨_, hc'⟩

theorem run_flush (h : Takes file Has) (hc : Has c e) (held : Bytes) :
    ((Buffer.flush file held).run e).value = (.ok (), []) ∧
      Has (c ++ held) ((Buffer.flush file held).run e).disk := by
  unfold Buffer.flush
  split
  · next hnil =>
    rw [hnil, List.append_nil]
    exact ⟨rfl, hc⟩
  · obtain ⟨e', happend, hc'⟩ := h c e held hc
    simp only [Script.run, Disk.answer, happend, Disk.settle]
    exact ⟨trivial, hc'⟩

theorem run_place (h : Takes file Has) (hc : Has c e) (held piece : Bytes)
    (hheld : Buffer.size ≤ piece.length → held = []) :
    let run := (Buffer.place file held piece).run e
    run.value.1 = .ok () ∧ ∃ c', Has c' run.disk ∧ c' ++ run.value.2 = c ++ held ++ piece := by
  unfold Buffer.place
  split
  · next hlong =>
    obtain ⟨e', happend, hc'⟩ := h c e piece hc
    simp only [Script.run, Disk.answer, happend, Disk.settle, hheld hlong]
    exact ⟨trivial, _, hc', by simp⟩
  · exact ⟨rfl, c, hc, (List.append_assoc ..).symm⟩

theorem run_take (h : Takes file Has) (hc : Has c e) (held piece : Bytes) :
    let run := (Buffer.take file held piece).run e
    run.value.1 = .ok () ∧ ∃ c', Has c' run.disk ∧ c' ++ run.value.2 = c ++ held ++ piece := by
  unfold Buffer.take
  split_ifs with hroom hfull
  · exact ⟨rfl, c, hc, (List.append_assoc ..).symm⟩
  · exact h.run_place hc held piece fun hlong => List.eq_nil_of_length_eq_zero (by omega)
  · obtain ⟨hv, hd⟩ := h.run_flush hc held
    simp only [Script.value_run_bind, Script.disk_run_bind, hv]
    simpa using h.run_place hd [] piece fun _ => rfl

/-- All that an encoder writes comes to the file or is held back at its end. -/
theorem run_drive (h : Takes file Has) (hc : Has c e) (encoder : Encoder) (held : Bytes) :
    let run := (encoder.drive file held).run e
    run.value.1 = encoder.outcome ∧
      ∃ c', Has c' run.disk ∧ c' ++ run.value.2 = c ++ held ++ encoder.written.flatten := by
  induction encoder generalizing c e held with
  | stop result => exact ⟨rfl, c, hc, (List.append_nil _).symm⟩
  | write piece next ih =>
    obtain ⟨hv, c', hc', hall⟩ := h.run_take hc held piece
    obtain ⟨hv', c'', hc'', hall'⟩ := ih (.ok ()) hc' ((Buffer.take file held piece).run e).value.2
    simp only [Encoder.drive, Script.value_run_bind, Script.disk_run_bind, hv]
    refine ⟨hv', c'', hc'', hall'.trans ?_⟩
    rw [hall, Encoder.written, List.flatten_cons, List.append_assoc _ piece]

/-- All of the picture comes to the file, or all that there is of one that is refused. -/
theorem run_encode (h : Takes file Has) (hc : Has [] e) (codec : Codec) (image : Raster)
    (p : Path) :
    let run := (encode codec image p file).run e
    Has (codec.bytes image) run.disk ∧ ((codec.Encodes image ∧ run.value = .ok ()) ∨
      (¬ codec.Encodes image ∧ ∃ f, run.value = .error f)) := by
  obtain ⟨hv, c, hc', hall⟩ := h.run_drive hc (codec.encoder image) []
  simp only [encode, Script.value_run_bind, Script.disk_run_bind]
  generalize (((codec.encoder image).drive file []).run e).disk = e' at *
  generalize (((codec.encoder image).drive file []).run e).value = answer at *
  obtain ⟨r, held⟩ := answer
  obtain ⟨hflushed, hfull⟩ := h.run_flush hc' held
  rw [hall, List.nil_append, List.nil_append] at hfull
  cases r with
  | error message =>
    simp only [Script.value_run_bind, Script.disk_run_bind]
    exact ⟨hfull, .inr ⟨fun hok => (by cases hok.symm.trans hv.symm), _, rfl⟩⟩
  | ok u =>
    simp only [Script.value_run_bind, Script.disk_run_bind, hflushed]
    exact ⟨hfull, .inl ⟨hv.symm, rfl⟩⟩

end Takes

end IconPainter
