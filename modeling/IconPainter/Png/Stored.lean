import IconPainter.Buffer
import IconPainter.Png.Packed
import IconPainter.Proofs.Png.RoundTrip

/-! # A codec without compression

Files are written as they are, without compression, and read back. Where a packed
file would fit into the buffer, nothing of it is handed on while it is encoded, so a
file that takes nothing is not noticed by then; this encoder does not notice it
either.
-/

namespace IconPainter.Png

def ending : Bytes := chunk endKind []

def encodeFrom (r : Raster) : List Bytes → Encoder
  | [] => .stop (.ok ())
  | piece :: pieces => .write piece fun
    | .ok () => encodeFrom r pieces
    | .error e =>
      if packedSize r ≤ Buffer.size then encodeFrom r pieces else .stop (.error e.message)

def encoder (r : Raster) : Encoder :=
  match encode r with
  | .error e => .write ending fun _ => .stop (.error e.message)
  | .ok pieces => encodeFrom r pieces

variable {r : Raster} {pieces : List Bytes}

theorem written_encodeFrom (r : Raster) (pieces : List Bytes) :
    (encodeFrom r pieces).written = pieces := by
  induction pieces with
  | nil => rfl
  | cons piece pieces ih => rw [encodeFrom, Encoder.written, ih]

theorem outcome_encodeFrom (r : Raster) (pieces : List Bytes) :
    (encodeFrom r pieces).outcome = .ok () := by
  induction pieces with
  | nil => rfl
  | cons piece pieces ih => rw [encodeFrom, Encoder.outcome, ih]

theorem outcome_encoder_eq_ok_iff (r : Raster) :
    (encoder r).outcome = .ok () ↔ ∃ pieces, encode r = .ok pieces := by
  unfold encoder
  cases encode r with
  | error e => simp [Encoder.outcome]
  | ok pieces => simp [outcome_encodeFrom]

theorem exists_encode_iff (r : Raster) :
    (∃ pieces, encode r = .ok pieces) ↔ r.width ≠ 0 ∧ r.height ≠ 0 := by
  by_cases hwidth : r.width = 0
  · simp [encode, hwidth]
  · by_cases hheight : r.height = 0
    · simp [encode, hwidth, hheight]
    · simp [encode, hwidth, hheight]

theorem encoder_of_ok (h : encode r = .ok pieces) : encoder r = encodeFrom r pieces := by
  simp only [encoder, h]

/-- The codec of stored files. -/
def codec : Codec where
  encoder := encoder
  decode := decode
  ending := ending
  outcome_eq_ok_iff r := (outcome_encoder_eq_ok_iff r).trans (exists_encode_iff r)
  written_of_error r message h := by
    cases hr : encode r with
    | error e => simp [encoder, hr, Encoder.written]
    | ok pieces =>
      rw [encoder_of_ok hr, outcome_encodeFrom] at h
      contradiction
  decode_written r h := by
    obtain ⟨pieces, hr⟩ := (outcome_encoder_eq_ok_iff r).mp h
    rw [encoder_of_ok hr, written_encodeFrom]
    exact decode_encode hr

end IconPainter.Png
