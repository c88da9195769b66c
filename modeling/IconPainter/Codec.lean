import IconPainter.Disk.Basic
import IconPainter.Raster.Basic

/-! # Codecs

The picture format is taken from a library. An encoder hands its file on piece by
piece and is told each time whether the piece was taken; a decoder reads a file
back. All that is known of the two is that a picture without columns or rows is
refused, what is handed on of such a picture, and that any other picture can be
read back from its file.
-/

namespace IconPainter

/-- An encoder at work on a picture. -/
inductive Encoder where
  | stop (result : Except String Unit)
  | write (piece : Bytes) (next : Except OsError Unit → Encoder)

namespace Encoder

/-- The pieces that are written if every one of them is taken. -/
def written : Encoder → List Bytes
  | stop _ => []
  | write piece next => piece :: (next (.ok ())).written

def outcome : Encoder → Except String Unit
  | stop result => result
  | write _ next => (next (.ok ())).outcome

end Encoder

/-- A picture format. Exactly the pictures without columns or rows are refused, and what is handed
on of these is the ending alone; every other picture can be read back from its file. -/
structure Codec where
  encoder : Raster → Encoder
  decode : Bytes → Option Raster
  ending : Bytes
  outcome_eq_ok_iff : ∀ image, (encoder image).outcome = .ok () ↔
    image.width ≠ 0 ∧ image.height ≠ 0
  written_of_error : ∀ image message, (encoder image).outcome = .error message →
    (encoder image).written.flatten = ending
  decode_written : ∀ image, (encoder image).outcome = .ok () →
    decode (encoder image).written.flatten = some image

namespace Codec

variable (codec : Codec)

def bytes (image : Raster) : Bytes := (codec.encoder image).written.flatten

/-- The picture has a file, and is not refused. -/
def Encodes (image : Raster) : Prop := (codec.encoder image).outcome = .ok ()

variable {codec} {image image' : Raster}

theorem encodes_iff : codec.Encodes image ↔ image.width ≠ 0 ∧ image.height ≠ 0 :=
  codec.outcome_eq_ok_iff image

theorem Encodes.decode_bytes (h : codec.Encodes image) :
    codec.decode (codec.bytes image) = some image :=
  codec.decode_written image h

theorem bytes_of_error {message : String} (h : (codec.encoder image).outcome = .error message) :
    codec.bytes image = codec.ending :=
  codec.written_of_error image message h

theorem exists_error_of_not_encodes (h : ¬ codec.Encodes image) :
    ∃ message, (codec.encoder image).outcome = .error message := by
  cases hr : (codec.encoder image).outcome with
  | error message => exact ⟨message, rfl⟩
  | ok u => exact (h hr).elim

theorem Encodes.image_eq (h : codec.Encodes image) (h' : codec.Encodes image')
    (heq : codec.bytes image = codec.bytes image') : image = image' :=
  Option.some.inj (h.decode_bytes.symm.trans (heq ▸ h'.decode_bytes))

end Codec

end IconPainter
