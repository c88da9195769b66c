import IconPainter.Painting

/-! # The program

The arguments and the environment decide what is seen of the log. Whatever
they say, once they are understood the same job is done in the same way. How
they are understood, and how the log is shown, is up to libraries.
-/

namespace IconPainter

/-- What a run leaves for its caller: the exit code, the standard output, and the
lines on standard error. -/
structure Report where
  code : Nat
  output : String
  lines : List String
deriving DecidableEq, Repr

/-! ### Libraries -/

/-- How arguments are read: as the number of times that more of the log is asked for, or as
something that is answered at once, be it a question or a mistake. -/
structure CommandLine where
  parse : List Bytes → Except Report UInt8

/-- What comes of reading a log setting. A reader is meant to end in one of the first two ways. -/
inductive Reading (α : Type) where
  | filter (f : α)
  | invalid
  | stopped

/-- How log settings are read, and which lines are shown of a log. -/
structure Subscriber where
  Filter : Type
  read : Bytes → Reading Filter
  upTo : Level → Filter
  lines : Filter → List Event → List String

/-- What the program takes from elsewhere. -/
structure Libraries where
  codec : Codec
  commandLine : CommandLine
  subscriber : Subscriber

/-! ### A run -/

inductive Outcome where
  | made
  | failed (f : Failure)
  | crashed (c : Crash)
deriving DecidableEq

namespace Program

def job : Job := .standard

def starting : Event :=
  ⟨[], .info, "gen_icon", "generating icon", [⟨"size", .number job.size.toNat⟩]⟩

def outcome : Except Crash (Except Failure Path) → Outcome
  | .error c => .crashed c
  | .ok (.error f) => .failed f
  | .ok (.ok _) => .made

def work (codec : Codec) : Script Outcome :=
  .note starting <| (job.work codec).bind fun r => .done (outcome r)

def levelFor : (n : UInt8) → Level
  | 0 => .warn
  | 1 => .info
  | 2 => .debug
  | _ => .trace

/-- The log filter: the one that the environment sets, if it is one. There is none if its
reader stops. -/
def filterFor (s : Subscriber) (n : UInt8) (setting : Option Bytes) : Option s.Filter :=
  match setting.map s.read with
  | some (.filter f) => some f
  | some .stopped => none
  | some .invalid | none => some (s.upTo (levelFor n))

def failureLines (f : Failure) : List String :=
  match f.chain with
  | [] => []
  | message :: causes =>
    ("Error: " ++ message) ::
      if causes = [] then [] else "" :: "Caused by:" :: causes.map ("    " ++ ·)

def report (logged : List String) : Outcome → Report
  | .made => ⟨0, "Created " ++ job.destinationText ++ "\n", logged⟩
  | .failed f => ⟨1, "", logged ++ failureLines f⟩
  | .crashed c => ⟨101, "", logged ++ [c.message]⟩

/-- Run the program on a disk. A library that stops ends the program without a report. -/
def run (l : Libraries) (args : List Bytes) (setting : Option Bytes) (d : Disk) :
    Option Report × Disk :=
  match l.commandLine.parse args with
  | .error answer => (some answer, d)
  | .ok n =>
    match filterFor l.subscriber n setting with
    | none => (none, d)
    | some filter =>
      let r := (work l.codec).run d
      (some (report (l.subscriber.lines filter r.events) r.value), r.disk)

end Program

end IconPainter
