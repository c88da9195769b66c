import IconPainter.Codec
import IconPainter.Script

/-! # Buffered writing

Between an encoder and a file stands a buffer, which holds small pieces back
and hands them to the file together. What cannot be handed on is kept.
-/

namespace IconPainter

namespace Buffer

/-- How many bytes are held back before any are handed to a file. -/
def size : Nat := 8192

/-- Hand on what is held back. Beside the answer stands what is still held. -/
def flush (file : FileId) (held : Bytes) : Script (Except OsError Unit × Bytes) :=
  if held = [] then .done (.ok (), [])
  else .ask (.append file held) fun
    | .ok () => .done (.ok (), [])
    | .error e => .done (.error e, held)

/-- Take a piece for which what is held back has made room. A piece that would fill all of the
buffer goes to the file at once. -/
def place (file : FileId) (held piece : Bytes) : Script (Except OsError Unit × Bytes) :=
  if size ≤ piece.length then .ask (.append file piece) fun r => .done (r, held)
  else .done (.ok (), held ++ piece)

/-- Take a piece. It is added to what is held back if there is more than enough room for it. -/
def take (file : FileId) (held piece : Bytes) : Script (Except OsError Unit × Bytes) :=
  if held.length + piece.length < size then .done (.ok (), held ++ piece)
  else if held.length + piece.length = size then place file held piece
  else (flush file held).bind fun
    | (.ok (), held) => place file held piece
    | (.error e, held) => .done (.error e, held)

end Buffer

/-- Let an encoder write to a file through a buffer. Beside what it comes to stands what the
buffer still holds. -/
def Encoder.drive (file : FileId) : Encoder → Bytes → Script (Except String Unit × Bytes)
  | stop result, held => .done (result, held)
  | write piece next, held => (Buffer.take file held piece).bind fun (r, held) =>
    (next r).drive file held

end IconPainter
