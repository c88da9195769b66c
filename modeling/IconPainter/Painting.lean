import IconPainter.Delivery
import IconPainter.Disk.Run
import IconPainter.Drawing
import IconPainter.Job

/-! # Doing a job

The icon is painted first, then the directory is made sure of, and then the
picture is delivered. A crash can only come from the painting, before anything
is asked of the system.
-/

namespace IconPainter

namespace Job

def target : String := "gen_icon::icon"

def rendered (image : Raster) : Event :=
  ⟨[], .debug, target, "rendered icon",
    ⟨"shapes", .number Drawing.crab.length⟩ :: Delivery.sizeFields image ++
      [⟨"opaque", .number (image.count (·.alpha == 255))⟩]⟩

/-- Deliver a painted icon; the value is the path where it is then. -/
def deliver (codec : Codec) (j : Job) (image : Raster) : Script (Except Failure Path) :=
  .within ⟨"generate", target, [⟨"path", .text j.destination.display⟩]⟩ <|
    .note (rendered image) <| (Delivery.prepareDirectory j.directory).bind fun
      | .error f => .done (.error f)
      | .ok () => (Delivery.writePicture codec image j.destination).bind fun
        | .error f => .done (.error f)
        | .ok () => .done (.ok j.destination)

/-- All of a job's work: a crash, a failure, or the path where the icon is then. -/
def work (codec : Codec) (j : Job) : Script (Except Crash (Except Failure Path)) :=
  match Drawing.paint j.size with
  | .error crash => .done (.error crash)
  | .ok image => (j.deliver codec image).bind fun r => .done (.ok r)

end Job

/-- The disk once it was made sure of a directory, as far as that goes. -/
def Disk.prepared (d : Disk) (p : Path) : Disk := ((Delivery.prepareDirectory p).run d).disk

end IconPainter
