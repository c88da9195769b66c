import IconPainter.Png.Zlib
import IconPainter.Raster.Basic

/-! # Picture files

A raster as a PNG file with eight bits for each of red, green, blue and
opacity, its rows unfiltered and its data stored without compression. A raster
without columns or rows has no such file.
-/

namespace IconPainter.Png

inductive EncodeError where
  | zeroWidth
  | zeroHeight
deriving DecidableEq, Repr

def EncodeError.message : EncodeError → String
  | zeroWidth => "Zero width not allowed"
  | zeroHeight => "Zero height not allowed"

def signature : Bytes := [137, 80, 78, 71, 13, 10, 26, 10]

/-- A part of the file: its length, its kind, its data and their check. -/
def chunk (kind : Bytes) (data : Bytes) : Bytes :=
  word32 (.ofNat data.length) ++ kind ++ data ++ word32 (crc32 (kind ++ data))

def headerKind : Bytes := [73, 72, 68, 82]

def dataKind : Bytes := [73, 68, 65, 84]

def endKind : Bytes := [73, 69, 78, 68]

def maxData : Nat := 16777216

def format : Bytes := [8, 6, 0, 0, 0]

def colorBytes (c : Color) : Bytes := [c.red, c.green, c.blue, c.alpha]

/-- The rows of a raster, each after the byte that says that it is unfiltered. -/
def rows (r : Raster) : List Bytes :=
  (List.range r.height.toNat).map fun y =>
    0 :: (r.pixels.extract (y * r.width.toNat) ((y + 1) * r.width.toNat)).toList.flatMap colorBytes

/-- The picture file of a raster, in the pieces in which it is written. -/
def encode (r : Raster) : Except EncodeError (List Bytes) :=
  if r.width = 0 then .error .zeroWidth
  else if r.height = 0 then .error .zeroHeight
  else .ok ((signature ++ chunk headerKind (word32 r.width ++ word32 r.height ++ format)) ::
    (cut maxData (Zlib.store (rows r).flatten)).map (chunk dataKind) ++ [chunk endKind []])

def readChunk (bytes : Bytes) : Option ((Bytes × Bytes) × Bytes) := do
  let (length, bytes) ← readWord32 bytes
  let (kind, bytes) ← readBytes 4 bytes
  let (data, bytes) ← readBytes length.toNat bytes
  let (check, bytes) ← readWord32 bytes
  if check = crc32 (kind ++ data) then some ((kind, data), bytes) else none

def readData : (count : Nat) → Bytes → Option Bytes
  | 0, _ => none
  | count + 1, bytes => do
    let ((kind, data), bytes) ← readChunk bytes
    if kind = dataKind then
      let more ← readData count bytes
      some (data ++ more)
    else if kind = endKind ∧ data = [] ∧ bytes = [] then some []
    else none

def readRow : (width : Nat) → Bytes → Option (List Color × Bytes)
  | 0, bytes => some ([], bytes)
  | width + 1, r :: g :: b :: a :: bytes => do
    let (colors, bytes) ← readRow width bytes
    some (⟨r, g, b, a⟩ :: colors, bytes)
  | _, _ => none

def readRows (width : Nat) : (height : Nat) → Bytes → Option (List (List Color))
  | 0, bytes => if bytes = [] then some [] else none
  | height + 1, 0 :: bytes => do
    let (row, bytes) ← readRow width bytes
    let more ← readRows width height bytes
    some (row :: more)
  | _, _ => none

def assemble (width height : UInt32) (colors : List Color) : Option Raster :=
  if h : colors.toArray.size = width.toNat * height.toNat then
    some ⟨width, height, colors.toArray, h⟩
  else none

def readHeader (head : Bytes) : Option (UInt32 × UInt32) := do
  let (width, head) ← readWord32 head
  let (height, head) ← readWord32 head
  if head = format ∧ width ≠ 0 ∧ height ≠ 0 then some (width, height) else none

/-- The raster whose picture file the bytes are. -/
def decode (bytes : Bytes) : Option Raster := do
  let (start, bytes) ← readBytes 8 bytes
  let ((kind, head), bytes) ← readChunk bytes
  if start = signature ∧ kind = headerKind then
    let (width, height) ← readHeader head
    let stored ← readData bytes.length bytes
    let data ← Zlib.load stored
    let rows ← readRows width.toNat height.toNat data
    assemble width height rows.flatten
  else none

end IconPainter.Png
