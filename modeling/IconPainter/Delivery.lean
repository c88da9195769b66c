import IconPainter.Buffer
import IconPainter.Path.Text

/-! # Delivering a picture

A picture is written to a staging file beside its place and moved there only
when all of it is stored, so what stood there before is replaced in one step.
Whatever fails on the way, the staging file is taken away again.
-/

namespace IconPainter

inductive Failure where
  | makeDirectory (p : Path) (cause : OsError)
  | create (p : Path) (cause : OsError)
  | encode (p : Path) (message : String)
  | write (cause : OsError)
  | sync (p : Path) (cause : OsError)
  | move (p : Path) (cause : OsError)
deriving DecidableEq, Repr

/-- What could not be done, and then the cause, where it is not told with it. -/
def Failure.chain : Failure → List String
  | makeDirectory p cause =>
    [s!"Failed to create output directory '{p.display}'", cause.message]
  | create p cause => [s!"Failed to create '{p.display}'", cause.message]
  | encode p message => [s!"Failed to encode PNG '{p.display}': {message}"]
  | write cause => [cause.message]
  | sync p cause => [s!"Failed to sync '{p.display}'", cause.message]
  | move p cause => [s!"Failed to move the encoded PNG into '{p.display}'", cause.message]

namespace Delivery

def target : String := "gen_icon::output"

def event (level : Level) (message : String) (fields : List Field) : Event :=
  ⟨[], level, target, message, fields⟩

def sizeFields (image : Raster) : List Field :=
  [⟨"width", .number image.width.toNat⟩, ⟨"height", .number image.height.toNat⟩]

def directoryReady (p : Path) : Event :=
  event .debug "output directory ready" [⟨"dir", .text p.display⟩]

def encoded (staging : Path) : Event :=
  event .debug "encoded staging file" [⟨"path", .text staging.display⟩]

def wrote (p : Path) : Event :=
  event .info "wrote icon" [⟨"path", .text p.display⟩]

def leftBehind (staging : Path) (e : OsError) : Event :=
  event .warn "could not remove staging file"
    [⟨"staging", .text staging.display⟩, ⟨"cleanup", .text e.message⟩]

def acceptDirectory (p : Path) (e : OsError) : Script (Except OsError Unit) :=
  .ask (.isDirectory p) fun
    | true => .done (.ok ())
    | false => .done (.error e)

def makeOne (p : Path) : Script (Except OsError Unit) :=
  .ask (.makeDirectory p) fun
    | .ok () => .done (.ok ())
    | .error e => acceptDirectory p e

/-- Make the first path a directory. The others are those above it, nearest first,
and are made only if it turns out that the one below cannot be made without. -/
def makeAll : List Path → Script (Except OsError Unit)
  | [] => .done (.error .noEntry)
  | p :: above =>
    if p.bytes = [] then .done (.ok ())
    else .ask (.makeDirectory p) fun
      | .ok () => .done (.ok ())
      | .error .noEntry => (makeAll above).bind fun
        | .ok () => makeOne p
        | .error e => .done (.error e)
      | .error e => acceptDirectory p e

/-- Make sure that there is a directory, with those above it. -/
def prepareDirectory (p : Path) : Script (Except Failure Unit) :=
  .within ⟨"ensure_directory", target, [⟨"dir", .text p.quoted⟩]⟩ <|
    (makeAll (p :: p.ancestors)).bind fun
      | .ok () => .note (directoryReady p) (.done (.ok ()))
      | .error e => .done (.error (.makeDirectory p e))

/-- The name under which a picture is written before it is moved into place. -/
def stagingPath (p : Path) : Path :=
  p.withFileName (Path.dot :: p.fileName?.getD [] ++ Bytes.ofString ".partial")

/-- Encode a picture into an open file. What the buffer still holds after a failure is handed on
all the same, whatever comes of it. -/
def encode (codec : Codec) (image : Raster) (p : Path) (file : FileId) :
    Script (Except Failure Unit) :=
  ((codec.encoder image).drive file []).bind fun
    | (.error message, held) =>
      (Buffer.flush file held).bind fun _ => .done (.error (.encode p message))
    | (.ok (), held) => (Buffer.flush file held).bind fun
      | (.error e, held) => (Buffer.flush file held).bind fun _ => .done (.error (.write e))
      | (.ok (), _) => .done (.ok ())

def fill (codec : Codec) (image : Raster) (p : Path) (file : FileId) :
    Script (Except Failure Unit) :=
  (encode codec image p file).bind fun
    | .error f => .done (.error f)
    | .ok () => .ask (.sync file) fun
      | .error e => .done (.error (.sync p e))
      | .ok () => .note (encoded p) (.done (.ok ()))

def store (codec : Codec) (image : Raster) (p : Path) : Script (Except Failure Unit) :=
  .ask (.create p) fun
    | .error e => .done (.error (.create p e))
    | .ok file => fill codec image p file

/-- Take away the staging file after a failure, and say so if it stays. -/
def cleanUp (staging : Path) (f : Failure) : Script (Except Failure Unit) :=
  .ask (.remove staging) fun
    | .ok () => .done (.error f)
    | .error e => .ask (.isThere staging) fun
      | true => .note (leftBehind staging e) (.done (.error f))
      | false => .done (.error f)

/-- Write a picture to a path. -/
def writePicture (codec : Codec) (image : Raster) (p : Path) : Script (Except Failure Unit) :=
  let staging := stagingPath p
  .within ⟨"write_png", target, ⟨"path", .text p.quoted⟩ :: sizeFields image⟩ <|
    (store codec image staging).bind fun
      | .error f => cleanUp staging f
      | .ok () => .ask (.rename staging p) fun
        | .error e => cleanUp staging (.move p e)
        | .ok () => .note (wrote p) (.done (.ok ()))

end Delivery

end IconPainter
