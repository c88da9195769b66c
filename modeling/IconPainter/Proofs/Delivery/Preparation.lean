import IconPainter.Proofs.Delivery.Neighbours
import IconPainter.Proofs.Disk.Growth

/-! # Making sure of a directory

Making sure of a directory lets the disk grow by directories that the path or
those above it name. If that succeeds, the path leads to a directory; if it
fails, what was made on the way stays.
-/

namespace IconPainter

open Delivery

namespace Disk

/-- The path leads to a directory through all links. -/
def HasDirectoryAt (d : Disk) (p : Path) : Prop :=
  ∃ id, d.resolve p = .ok id ∧ d.HasDirectory id

variable {d d' e : Disk} {id : NodeId} {x : Entry} {p : Path} {ps : List Path}

theorem isDirectory_iff : d.isDirectory p = true ↔ d.HasDirectoryAt p := by
  unfold isDirectory stat HasDirectoryAt
  simp only [hasDirectory_iff]
  cases d.resolve p with
  | error cause => simp
  | ok id => cases hn : d.node? id <;> simp [hn]

theorem Walks.inside (hd : d.HasDirectory id) (slash : Bool) :
    d.Walks id (Step.ending slash) [] id 0 := by
  cases slash with
  | false => exact .done
  | true => exact .on (hop_inside hd) .done

theorem resolve_of_named? (hp : d.named? p = some x) (hat : d.at? x = some id)
    (hd : d.HasDirectory id) : d.resolve p = .ok id := by
  obtain ⟨hn, es, n, hv, hle, hsearch, init, hs, hw⟩ := named?_iff_approaches.mp hp
  obtain ⟨parent, access, hk⟩ := hasDirectory_iff_directory.mp hd
  have hop : d.hop x.directory (.name x.name) = .ok (id, none) :=
    hop_name_eq_ok_iff.mpr ⟨hsearch, hn, reach?_eq_some_iff.mpr ⟨hat, _, hk, rfl⟩⟩
  have hall := hw.append (.on hop (.inside hd p.endsInSlash))
  rw [List.append_cons, ← hs, ← Path.fullSteps_eq] at hall
  exact resolve_eq_ok_iff.mpr ⟨hv, _, n, hle, hall⟩

theorem Walks.mem_of_name {steps : List Step} {es : List Entry} {dest : NodeId} {n : Nat}
    (h : d.Walks x.directory (.name x.name :: steps) es dest n) : x ∈ es := by
  cases h <;> exact List.mem_append_left _ List.mem_cons_self

theorem HasDirectoryAt.passable (h : d.HasDirectoryAt p) (hx : d.named? p = some x) :
    d.Passable x := by
  obtain ⟨id, hid, hd⟩ := h
  obtain ⟨-, es, n, -, hw⟩ := resolve_eq_ok_iff.mp hid
  obtain ⟨-, es', n', -, -, -, init, hs, hw'⟩ := named?_iff_approaches.mp hx
  rw [Path.fullSteps_eq, hs, List.append_assoc] at hw
  obtain ⟨es₂, n₂, hrest, -⟩ := hw.rest hw'
  exact hrest.passable hd hrest.mem_of_name

theorem HasDirectoryAt.not_makes (h : d.HasDirectoryAt p) : ¬ d.Makes p e := by
  rintro ⟨hx, hnone, -⟩
  obtain ⟨k, hk, -⟩ := h.passable hx
  simp [kindAt?, hnone] at hk

theorem Makes.hasDirectoryAt (hw : d.WellFormed) (h : d.Makes p d') : d'.HasDirectoryAt p := by
  have hgrown := h.grown hw
  obtain @⟨x, hp, hnone, hc⟩ := h
  have hat := at?_addEntry (n := .directory x.directory .empty) hc.searchable.hasDirectory
    (by rintro _ _ ⟨⟩; rfl)
  have hx := congrFun hat x
  rw [Function.update_self] at hx
  obtain ⟨-, hk, -⟩ := hgrown.new hnone hx
  have hd := hasDirectory_iff_directory.mpr ⟨_, _, hk⟩
  exact ⟨_, resolve_of_named? (hgrown.named?_eq hp) hx hd, hd⟩

end Disk

/-! ### Runs -/

open Disk

variable {d : Disk} {p : Path} {cause : OsError}

theorem run_acceptDirectory (p : Path) (cause : OsError) (d : Disk) :
    ((acceptDirectory p cause).run d).disk = d ∧
      (((acceptDirectory p cause).run d).value = .ok () ↔ d.HasDirectoryAt p) := by
  rw [← isDirectory_iff]
  simp only [acceptDirectory, Script.run, Disk.answer]
  cases d.isDirectory p <;> simp [Script.run]

theorem run_makeOne_cases (p : Path) (d : Disk) :
    let run := (makeOne p).run d
    (∃ e, d.makeDirectory p = .ok e ∧ run.disk = e ∧ run.value = .ok ()) ∨
      ∃ cause, d.makeDirectory p = .error cause ∧ run.disk = d ∧
        (run.value = .ok () ↔ d.HasDirectoryAt p) := by
  intro run
  cases hm : d.makeDirectory p with
  | ok e =>
    refine .inl ⟨e, rfl, ?_⟩
    simp only [run, makeOne, Script.run, Disk.answer, hm, Disk.settle, and_self]
  | error cause =>
    refine .inr ⟨cause, rfl, ?_⟩
    simp only [run, makeOne, Script.run, Disk.answer, hm, Disk.settle]
    exact run_acceptDirectory p cause d

theorem run_makeOne (p : Path) (hw : d.WellFormed) :
    Grown [p] d ((makeOne p).run d).disk ∧
      (((makeOne p).run d).value = .ok () ↔ ((makeOne p).run d).disk.HasDirectoryAt p) := by
  rcases run_makeOne_cases p d with ⟨e, hm, hdisk, hvalue⟩ | ⟨cause, -, hdisk, hvalue⟩
  · have hmakes := (makeDirectory_eq_ok_iff hw).mp hm
    rw [hdisk]
    exact ⟨hmakes.grown hw, iff_of_true hvalue (hmakes.hasDirectoryAt hw)⟩
  · rw [hdisk]
    exact ⟨.refl _ hw, hvalue⟩

/-- A directory is made, or is refused and has to be there already; or those above it
cannot be made, or it is tried again where they are. -/
theorem run_makeAll_cons (hp : p.bytes ≠ []) (above : List Path) (d : Disk) :
    let run := (makeAll (p :: above)).run d
    let first := (makeAll above).run d
    let again := (makeOne p).run first.disk
    (∃ e, d.makeDirectory p = .ok e ∧ run.disk = e ∧ run.value = .ok ()) ∨
      (∃ cause, d.makeDirectory p = .error cause ∧ cause ≠ .noEntry ∧ run.disk = d ∧
        (run.value = .ok () ↔ d.HasDirectoryAt p)) ∨
      (d.makeDirectory p = .error .noEntry ∧ run.disk = first.disk ∧
        ∃ cause, first.value = .error cause ∧ run.value = .error cause) ∨
      (d.makeDirectory p = .error .noEntry ∧ first.value = .ok () ∧ run.disk = again.disk ∧
        run.value = again.value) := by
  intro run first again
  cases hm : d.makeDirectory p with
  | ok e =>
    refine .inl ⟨e, rfl, ?_⟩
    simp only [run, makeAll, hp, if_false, Script.run, Disk.answer, hm, Disk.settle, and_self]
  | error cause =>
    by_cases hc : cause = .noEntry
    · subst hc
      refine .inr (.inr ?_)
      simp only [run, makeAll, hp, if_false, Script.run, Disk.answer, hm, Disk.settle,
        Script.disk_run_bind, Script.value_run_bind]
      cases hv : first.value with
      | error cause => exact .inl ⟨trivial, rfl, cause, rfl, rfl⟩
      | ok u => exact .inr ⟨trivial, rfl, rfl, rfl⟩
    · obtain ⟨hdisk, hvalue⟩ := run_acceptDirectory p cause d
      refine .inr (.inl ⟨cause, rfl, hc, ?_⟩)
      simp only [run, makeAll, hp, if_false, Script.run, Disk.answer, hm, Disk.settle]
      exact ⟨hdisk, hvalue⟩

theorem run_makeAll (ps : List Path) (hw : d.WellFormed) :
    Grown ps d ((makeAll ps).run d).disk ∧
      (((makeAll ps).run d).value = .ok () → ∀ p ∈ ps.head?, p.bytes = [] ∨
        ((makeAll ps).run d).disk.HasDirectoryAt p) := by
  induction ps generalizing d with
  | nil => exact ⟨.refl _ hw, fun h => by contradiction⟩
  | cons p above ih =>
    simp only [List.head?_cons, Option.mem_some_iff, forall_eq']
    by_cases hp : p.bytes = []
    · simp only [makeAll, hp, if_true, Script.run]
      exact ⟨.refl _ hw, fun _ => .inl trivial⟩
    simp only [hp, false_or]
    obtain ⟨habove, -⟩ := ih hw
    rcases run_makeAll_cons hp above d with ⟨e, hm, hdisk, -⟩ | ⟨cause, -, -, hdisk, hvalue⟩ |
      ⟨-, hdisk, cause, -, hvalue⟩ | ⟨-, -, hdisk, hvalue⟩
    · have hmakes := (makeDirectory_eq_ok_iff hw).mp hm
      rw [hdisk]
      exact ⟨(hmakes.grown hw).mono (by simp), fun _ => hmakes.hasDirectoryAt hw⟩
    · rw [hdisk]
      exact ⟨.refl _ hw, hvalue.mp⟩
    · rw [hdisk, hvalue]
      exact ⟨habove.mono (by simp), fun h => by contradiction⟩
    · obtain ⟨hone, hvalue'⟩ := run_makeOne p habove.right
      rw [hdisk, hvalue]
      exact ⟨(habove.mono (by simp)).trans (hone.mono (by simp)), hvalue'.mp⟩

theorem value_run_prepareDirectory (p : Path) (d : Disk) :
    ((prepareDirectory p).run d).value = .ok () ↔
      ((makeAll (p :: p.ancestors)).run d).value = .ok () := by
  simp only [prepareDirectory, Script.run_within, Script.value_run_bind]
  cases ((makeAll (p :: p.ancestors)).run d).value <;> simp [Script.run]

theorem disk_run_prepareDirectory (p : Path) (d : Disk) :
    ((prepareDirectory p).run d).disk = ((makeAll (p :: p.ancestors)).run d).disk := by
  simp only [prepareDirectory, Script.run_within, Script.disk_run_bind]
  cases ((makeAll (p :: p.ancestors)).run d).value <;> rfl

/-- The whole of making sure of a directory. -/
theorem run_prepareDirectory (p : Path) (hw : d.WellFormed) :
    Grown (p :: p.ancestors) d ((prepareDirectory p).run d).disk ∧
      ((((prepareDirectory p).run d).value = .ok () ∧
          (p.bytes = [] ∨ ((prepareDirectory p).run d).disk.HasDirectoryAt p)) ∨
        ∃ cause, ((prepareDirectory p).run d).value = .error (.makeDirectory p cause)) := by
  obtain ⟨hgrown, hvalue⟩ := run_makeAll (p :: p.ancestors) hw
  rw [disk_run_prepareDirectory]
  refine ⟨hgrown, ?_⟩
  cases hv : ((makeAll (p :: p.ancestors)).run d).value with
  | ok u => exact .inl ⟨(value_run_prepareDirectory p d).mpr hv, hvalue hv p rfl⟩
  | error cause =>
    refine .inr ⟨cause, ?_⟩
    simp only [prepareDirectory, Script.run_within, Script.value_run_bind, hv, Script.run]

theorem run_prepareDirectory_of_single (hw : d.WellFormed) (hp : p.bytes ≠ [])
    (habove : p.ancestors = [⟨[]⟩]) :
    (((prepareDirectory p).run d).value = .ok () ∧
        d.Makes p ((prepareDirectory p).run d).disk) ∨
      ((∀ e, ¬ d.Makes p e) ∧ ((prepareDirectory p).run d).disk = d ∧
        (((prepareDirectory p).run d).value = .ok () ↔ d.HasDirectoryAt p)) := by
  have hno {cause : OsError} (hm : d.makeDirectory p = .error cause) (e : Disk) :
      ¬ d.Makes p e := fun hmakes => by
    cases hm.symm.trans ((makeDirectory_eq_ok_iff hw).mpr hmakes)
  rw [value_run_prepareDirectory, disk_run_prepareDirectory, habove]
  rcases run_makeAll_cons hp [⟨[]⟩] d with ⟨e, hm, hdisk, hvalue⟩ | ⟨cause, hm, -, hdisk, hvalue⟩ |
    ⟨-, -, cause, herror, -⟩ | ⟨hm, -, hdisk, hvalue⟩
  · exact .inl ⟨hvalue, hdisk ▸ (makeDirectory_eq_ok_iff hw).mp hm⟩
  · exact .inr ⟨hno hm, hdisk, hvalue⟩
  · contradiction
  -- Nothing is above the directory, so the second try is made on the same disk.
  · rcases run_makeOne_cases p d with ⟨e, hm', -⟩ | ⟨cause, -, hone, hiff⟩
    · cases hm.symm.trans hm'
    · exact .inr ⟨hno hm, hdisk.trans hone, hvalue ▸ hiff⟩

end IconPainter
