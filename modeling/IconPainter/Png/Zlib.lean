import IconPainter.Png.Checksum

/-! # Stored data

Data in the compressed format without compression: a header, blocks of at most
65535 bytes that hold the data as they are, and a checksum of them.
-/

namespace IconPainter.Png

def word32 (n : UInt32) : Bytes :=
  [(n >>> 24).toUInt8, (n >>> 16).toUInt8, (n >>> 8).toUInt8, n.toUInt8]

def readWord32 : Bytes → Option (UInt32 × Bytes)
  | a :: b :: c :: d :: rest =>
    some (a.toUInt32 <<< 24 ||| b.toUInt32 <<< 16 ||| c.toUInt32 <<< 8 ||| d.toUInt32, rest)
  | _ => none

def word16 (n : UInt16) : Bytes :=
  [n.toUInt8, (n >>> 8).toUInt8]

def readWord16 : Bytes → Option (UInt16 × Bytes)
  | a :: b :: rest => some (b.toUInt16 <<< 8 ||| a.toUInt16, rest)
  | _ => none

def readBytes (n : Nat) (bytes : Bytes) : Option (Bytes × Bytes) :=
  let (first, rest) := bytes.splitAt n
  if first.length = n then some (first, rest) else none

def cutFrom (n : Nat) : (count : Nat) → Bytes → List Bytes
  | 0, bytes => [bytes]
  | count + 1, bytes =>
    match bytes.drop n with
    | [] => [bytes]
    | rest => bytes.take n :: cutFrom n count rest

def cut (n : Nat) (bytes : Bytes) : List Bytes :=
  cutFrom n (bytes.length / n) bytes

namespace Zlib

def header : Bytes := [0x78, 0x01]

def maxBlock : Nat := 65535

def block (final : Bool) (data : Bytes) : Bytes :=
  let length := UInt16.ofNat data.length
  (if final then 1 else 0) :: word16 length ++ word16 (~~~ length) ++ data

def blocks : List Bytes → Bytes
  | [] => []
  | [data] => block true data
  | data :: parts => block false data ++ blocks parts

/-- The stored data. -/
def store (data : Bytes) : Bytes :=
  header ++ blocks (cut maxBlock data) ++ word32 (adler32 data)

def readBlocks : (count : Nat) → Bytes → Option (Bytes × Bytes)
  | 0, _ => none
  | _, [] => none
  | count + 1, kind :: bytes => do
    let (length, bytes) ← readWord16 bytes
    let (check, bytes) ← readWord16 bytes
    let (data, bytes) ← readBytes length.toNat bytes
    if check ≠ ~~~ length then none
    else if kind = 1 then some (data, bytes)
    else if kind = 0 then
      let (more, bytes) ← readBlocks count bytes
      some (data ++ more, bytes)
    else none

def load (bytes : Bytes) : Option Bytes := do
  let (head, bytes) ← readBytes 2 bytes
  let (data, bytes) ← readBlocks bytes.length bytes
  if head = header ∧ bytes = word32 (adler32 data) then some data else none

end Zlib

end IconPainter.Png
