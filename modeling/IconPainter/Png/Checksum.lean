import IconPainter.Text.Utf8

/-! # Checksums

The two checksums of a picture file: the cyclic redundancy check of a chunk,
and the pair of sums at the end of compressed data.
-/

namespace IconPainter.Png

def crcBit (c : UInt32) : UInt32 :=
  if c &&& 1 = 1 then (c >>> 1) ^^^ 0xEDB88320 else c >>> 1

def crcByte (c : UInt32) (b : UInt8) : UInt32 :=
  crcBit (crcBit (crcBit (crcBit (crcBit (crcBit (crcBit (crcBit (c ^^^ b.toUInt32))))))))

def crc32 (bytes : Bytes) : UInt32 :=
  ~~~ bytes.foldl crcByte 0xFFFFFFFF

def adler32 (bytes : Bytes) : UInt32 :=
  let sums := bytes.foldl (fun (a, b) byte =>
    let a := (a + byte.toUInt32) % 65521
    (a, (b + a) % 65521)) ((1, 0) : UInt32 × UInt32)
  sums.2 <<< 16 ||| sums.1

end IconPainter.Png
