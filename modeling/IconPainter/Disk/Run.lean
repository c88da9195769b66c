import IconPainter.Disk.Requests
import IconPainter.Script

/-! # Running a script on a disk

A run keeps the value, the events, and the state of the disk after every
request; a file is known by the number of its node.
-/

namespace IconPainter

structure Run (α : Type) where
  value : α
  events : List Event
  /-- The disk at the start and after each request. -/
  states : List Disk
  disk : Disk

namespace Disk

/-- The answer of a request that changes the disk if it succeeds. -/
def settle (d : Disk) : Except OsError Disk → Except OsError Unit × Disk
  | .ok d' => (.ok (), d')
  | .error e => (.error e, d)

def answer (d : Disk) : (r : Request) → r.Answer × Disk
  | .makeDirectory p => d.settle (d.makeDirectory p)
  | .isDirectory p => (d.isDirectory p, d)
  | .isThere p => (d.isThere p, d)
  | .create p =>
    match d.create p with
    | .ok (file, d') => (.ok file, d')
    | .error e => (.error e, d)
  | .append file bytes => d.settle (d.append file bytes)
  | .sync file => d.settle (d.sync file)
  | .rename old new => d.settle (d.rename old new)
  | .remove p => d.settle (d.remove p)

end Disk

namespace Script

variable {α β : Type}

def run : Script α → Disk → Run α
  | done a, d => ⟨a, [], [d], d⟩
  | note e next, d =>
    let r := next.run d
    { r with events := e :: r.events }
  | ask q next, d =>
    let (answer, d') := d.answer q
    let r := (next answer).run d'
    { r with states := d :: r.states }

theorem value_run_bind (s : Script α) (f : α → Script β) (d : Disk) :
    ((s.bind f).run d).value = ((f (s.run d).value).run (s.run d).disk).value := by
  induction s generalizing d with
  | done a => rfl
  | note e next ih => exact ih d
  | ask q next ih => exact ih _ _

theorem disk_run_bind (s : Script α) (f : α → Script β) (d : Disk) :
    ((s.bind f).run d).disk = ((f (s.run d).value).run (s.run d).disk).disk := by
  induction s generalizing d with
  | done a => rfl
  | note e next ih => exact ih d
  | ask q next ih => exact ih _ _

theorem events_run_bind (s : Script α) (f : α → Script β) (d : Disk) :
    ((s.bind f).run d).events =
      (s.run d).events ++ ((f (s.run d).value).run (s.run d).disk).events := by
  induction s generalizing d with
  | done a => rfl
  | note e next ih => exact congrArg (e :: ·) (ih d)
  | ask q next ih => exact ih _ _

theorem head?_states_run (s : Script α) (d : Disk) : (s.run d).states.head? = some d := by
  induction s generalizing d with
  | done a => rfl
  | note e next ih => exact ih d
  | ask q next ih => rfl

theorem getLast?_states_run (s : Script α) (d : Disk) :
    (s.run d).states.getLast? = some (s.run d).disk := by
  induction s generalizing d with
  | done a => rfl
  | note e next ih => exact ih d
  | ask q next ih =>
    simp only [run]
    rw [List.getLast?_cons, ih]
    rfl

theorem mem_states_run (s : Script α) (d : Disk) : d ∈ (s.run d).states :=
  List.mem_of_mem_head? (head?_states_run s d)

theorem mem_states_run_bind {s : Script α} {f : α → Script β} {d e : Disk} :
    e ∈ ((s.bind f).run d).states ↔
      e ∈ (s.run d).states ∨ e ∈ ((f (s.run d).value).run (s.run d).disk).states := by
  induction s generalizing d with
  | done a =>
    simp only [bind, run, List.mem_singleton, iff_or_self]
    rintro rfl
    exact mem_states_run _ _
  | note e next ih => exact ih
  | ask q next ih => simp only [bind, run, List.mem_cons, ih, or_assoc]

/-- The disk where the one script ends is the disk where the other starts. -/
theorem states_run_bind (s : Script α) (f : α → Script β) (d : Disk) :
    ((s.bind f).run d).states =
      (s.run d).states.dropLast ++ ((f (s.run d).value).run (s.run d).disk).states := by
  induction s generalizing d with
  | done a => rfl
  | note e next ih => exact ih d
  | ask q next ih =>
    simp only [bind, run, ih, ← List.cons_append]
    rw [List.dropLast_cons_of_ne_nil (List.ne_nil_of_mem (mem_states_run _ _))]

theorem dropLast_states_run (s : Script α) (d : Disk) (after : List Disk) :
    (s.run d).states.dropLast ++ (s.run d).disk :: after = (s.run d).states ++ after := by
  obtain ⟨before, h⟩ := List.getLast?_eq_some_iff.mp (getLast?_states_run s d)
  rw [h, List.dropLast_concat, List.append_assoc]
  rfl

theorem disk_mem_states_run (s : Script α) (d : Disk) : (s.run d).disk ∈ (s.run d).states :=
  List.mem_of_getLast? (getLast?_states_run s d)

theorem run_within (sp : Span) (s : Script α) (d : Disk) :
    (s.within sp).run d = { s.run d with events := (s.run d).events.map (·.within sp) } := by
  induction s generalizing d with
  | done a => rfl
  | note e next ih => simp only [within, run, ih]; rfl
  | ask q next ih => simp only [within, run, ih]

end Script

end IconPainter
