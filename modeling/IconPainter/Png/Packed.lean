import IconPainter.Png.Basic

/-! # The packed size of a picture

How large a picture file is when its data are packed: each row is filtered in
the way that leaves the smallest sum, and the filtered bytes are written in one
prefix code, which is short for small differences and has runs for zeros only.
Nothing here writes such a file; its size says whether it fits into a buffer.
-/

namespace IconPainter.Png

inductive RowFilter where
  | left
  | above
  | mean
  | nearest
deriving DecidableEq, Repr

namespace RowFilter

def all : List RowFilter := [left, above, mean, nearest]

def number : RowFilter → UInt8
  | left => 1
  | above => 2
  | mean => 3
  | nearest => 4

def predict (a b c : UInt8) : UInt8 :=
  let p : Int := a.toNat + b.toNat - c.toNat
  let far (x : UInt8) := (p - x.toNat).natAbs
  if far a ≤ far b ∧ far a ≤ far c then a else if far b ≤ far c then b else c

def leave (f : RowFilter) (x a b c : UInt8) : UInt8 :=
  match f with
  | left => x - a
  | above => x - b
  | mean => x - .ofNat ((a.toNat + b.toNat) / 2)
  | nearest => x - predict a b c

def byteAt (row : Array UInt8) (i : Nat) : UInt8 := row[i]?.getD 0

def leaveAt (f : RowFilter) (up row : Array UInt8) (i : Nat) : UInt8 :=
  if i < 4 then f.leave (byteAt row i) 0 (byteAt up i) 0
  else f.leave (byteAt row i) (byteAt row (i - 4)) (byteAt up i) (byteAt up (i - 4))

def distance (x : UInt8) : Nat := min x.toNat (256 - x.toNat)

def weight (f : RowFilter) (up row : Array UInt8) : Nat :=
  row.size.fold (fun i _ sum => sum + distance (f.leaveAt up row i)) 0

def choose (up row : Array UInt8) : RowFilter :=
  (all.foldl (fun (best : RowFilter × Nat) f =>
    let w := f.weight up row
    if w ≤ best.2 then (f, w) else best) (left, left.weight up row)).1

def apply (f : RowFilter) (up row : Array UInt8) : Bytes :=
  f.number :: (List.range row.size).map (f.leaveAt up row)

end RowFilter

namespace Packed

def codeBits : Array Nat := #[
  2, 3, 4, 5, 5, 6, 6, 7, 7, 7, 8, 8, 8, 8, 8, 9, 9, 9, 9, 9, 9, 9, 10, 10, 10, 10, 10, 10, 10,
  10, 10, 11, 11, 11, 11, 11, 11, 11, 11, 11, 11, 11, 11, 12, 12, 12, 12, 12, 12, 12, 12, 12, 12,
  12, 12, 12, 12, 12, 12, 12, 12, 12, 12, 12, 12, 12, 12, 12, 12, 12, 12, 12, 12, 12, 12, 12, 12,
  12, 12, 12, 12, 12, 12, 12, 12, 12, 12, 12, 12, 12, 12, 12, 12, 12, 12, 12, 12, 12, 12, 12, 12,
  12, 12, 12, 12, 12, 12, 12, 12, 12, 12, 12, 12, 12, 12, 12, 12, 12, 12, 12, 12, 12, 12, 12, 12,
  12, 12, 12, 12, 12, 12, 12, 12, 12, 12, 12, 12, 12, 12, 12, 12, 12, 12, 12, 12, 12, 12, 12, 12,
  12, 12, 12, 12, 12, 12, 12, 12, 12, 12, 12, 12, 12, 12, 12, 12, 12, 12, 12, 12, 12, 12, 12, 12,
  12, 12, 12, 12, 12, 12, 12, 12, 12, 12, 12, 12, 12, 12, 12, 12, 12, 12, 12, 12, 12, 12, 12, 12,
  12, 12, 12, 12, 12, 12, 12, 12, 12, 12, 12, 12, 12, 12, 12, 12, 12, 11, 11, 11, 11, 11, 11, 11,
  11, 11, 11, 10, 11, 10, 10, 10, 10, 10, 10, 10, 10, 10, 9, 9, 9, 9, 9, 8, 9, 8, 8, 8, 8, 8, 7,
  7, 7, 6, 6, 6, 5, 4, 3, 12, 12, 12, 9, 9, 11, 10, 11, 11, 10, 11, 11, 11, 11, 11, 11, 12, 11,
  12, 12, 12, 12, 12, 12, 12, 12, 12, 12, 12, 9]

def bitsOf (symbol : Nat) : Nat := codeBits[symbol]?.getD 0

def literalBits (bytes : Bytes) : Nat :=
  bytes.foldl (fun sum b => sum + bitsOf b.toNat) 0

def runSymbol (n : Nat) : Nat × Nat :=
  if n = 258 then (285, 0)
  else if n < 11 then (254 + n, 0)
  else
    let extra := (n - 3).log2 - 2
    (257 + 4 * extra + (n - 3) / (1 <<< extra), extra)

/-- The bits for a run of zeros, of which there is at least one: the first is written
as it is, and the others as runs of 258 while they last. -/
def runBits (n : Nat) : Nat :=
  let rest := (n - 1) % 258
  bitsOf 0 + (n - 1) / 258 * (bitsOf 285 + 1) +
    if 4 < rest then
      let (symbol, extra) := runSymbol rest
      bitsOf symbol + extra + 1
    else rest * bitsOf 0

/-- The bits for a row after `run` zeros. Runs are looked for in words of eight bytes: they
begin where a word ends in zeros, and go on to the first other byte. -/
def rowBits (run : Nat) : Bytes → Nat
  | b₀ :: b₁ :: b₂ :: b₃ :: b₄ :: b₅ :: b₆ :: b₇ :: rest =>
    let word := [b₀, b₁, b₂, b₃, b₄, b₅, b₆, b₇]
    let tail := word.reverse.dropWhile (· == 0)
    if tail = [] then rowBits (run + 8) rest
    else if run = 0 then literalBits tail + rowBits (8 - tail.length) rest
    else
      let core := tail.reverse.dropWhile (· == 0)
      runBits (run + (tail.length - core.length)) + literalBits core +
        rowBits (8 - tail.length) rest
  | rest => (if run = 0 then 0 else runBits run) + literalBits rest

def rowsBits (up : Array UInt8) : List (Array UInt8) → Nat
  | [] => 0
  | row :: rows =>
    rowBits 0 ((RowFilter.choose up row).apply up row) + rowsBits row rows

def headBits : Nat := 413

def dataSize (rows : List (Array UInt8)) : Nat :=
  let packed := 6 + (headBits + rowsBits #[] rows + bitsOf 256 + 7) / 8
  let plain := rows.foldl (fun n row => n + row.size + 1) 0
  min packed (6 + plain + 5 * max 1 ((plain + 65534) / 65535))

end Packed

/-- The size of the packed picture file up to its last chunk. -/
def packedSize (r : Raster) : Nat :=
  let rows := (List.range r.height.toNat).map fun y =>
    ((r.pixels.extract (y * r.width.toNat) ((y + 1) * r.width.toNat)).toList.flatMap
      colorBytes).toArray
  signature.length + 25 + 12 + Packed.dataSize rows

end IconPainter.Png
