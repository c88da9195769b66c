import IconPainter.Arguments.Basic
import IconPainter.Log.Setting
import IconPainter.Png.Stored
import IconPainter.Program

/-! # The libraries of the program

The program is run with arguments, log settings and picture files as they are
read and written here.
-/

namespace IconPainter

def Stop.report (s : Stop) : Report :=
  if s.code = 0 then ⟨0, s.message, []⟩ else ⟨s.code, "", (Text.lines s.message).map .ofList⟩

def Arguments.commandLine : CommandLine where
  parse args :=
    match Arguments.parse args with
    | .error stop => .error stop.report
    | .ok n => .ok (.ofNat n)

namespace Filter

/-- Read a log setting, which is none unless it is a text. -/
def read (setting : Bytes) : Reading Filter :=
  match (Utf8.text? setting).map ofText with
  | some (.ok filter) => .filter filter
  | some (.error .insideCharacter) => .stopped
  | some (.error .invalid) | none => .invalid

def subscriber : Subscriber where
  Filter := Filter
  read := read
  upTo := upTo
  lines f events := (f.apply events).flatMap Event.lines

end Filter

def Libraries.standard : Libraries := ⟨Png.codec, Arguments.commandLine, Filter.subscriber⟩

end IconPainter
