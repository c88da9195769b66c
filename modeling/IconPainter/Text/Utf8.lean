/-! # Reading UTF-8

Bytes are read from left to right into characters. Where they are not UTF-8,
the reader sets apart the longest run of bytes that still could have begun a
character, and starts afresh at the byte after it.
-/

namespace IconPainter

abbrev Bytes := List UInt8

def Bytes.ofString (s : String) : Bytes := s.toUTF8.data.toList

namespace Utf8

/-- A stretch of decoded bytes: a character, or bytes that begin one and stop short. -/
inductive Piece where
  | char (c : Char)
  | invalid (bytes : Bytes)
deriving DecidableEq, Repr

/-- A character that has begun: its bytes so far, the value of their bits, how
many bytes are missing, and the range in which the next one must be. -/
structure Begun where
  bytes : Bytes
  value : Nat
  missing : Nat
  least : UInt8
  most : UInt8

def begin? (b : UInt8) : Option Begun :=
  let begun (value missing : Nat) (least most : UInt8) := some ⟨[b], value, missing, least, most⟩
  if 0xC2 ≤ b ∧ b ≤ 0xDF then begun (b.toNat - 0xC0) 1 0x80 0xBF
  else if b = 0xE0 then begun 0 2 0xA0 0xBF
  else if b = 0xED then begun 0xD 2 0x80 0x9F
  else if 0xE1 ≤ b ∧ b ≤ 0xEF then begun (b.toNat - 0xE0) 2 0x80 0xBF
  else if b = 0xF0 then begun 0 3 0x90 0xBF
  else if 0xF1 ≤ b ∧ b ≤ 0xF3 then begun (b.toNat - 0xF0) 3 0x80 0xBF
  else if b = 0xF4 then begun 4 3 0x80 0x8F
  else none

def first (b : UInt8) : List Piece × Option Begun :=
  if b < 0x80 then ([.char (.ofNat b.toNat)], none)
  else match begin? b with
    | some begun => ([], some begun)
    | none => ([.invalid [b]], none)

/-- Read a byte; `begun` is the character that it may go on with. -/
def step (begun : Option Begun) (b : UInt8) : List Piece × Option Begun :=
  match begun with
  | none => first b
  | some g =>
    if g.least ≤ b ∧ b ≤ g.most then
      let value := g.value * 64 + (b.toNat - 0x80)
      if g.missing ≤ 1 then ([.char (.ofNat value)], none)
      else ([], some ⟨g.bytes ++ [b], value, g.missing - 1, 0x80, 0xBF⟩)
    else
      let (pieces, next) := first b
      (.invalid g.bytes :: pieces, next)

def decodeFrom : Option Begun → Bytes → List Piece
  | none, [] => []
  | some g, [] => [.invalid g.bytes]
  | begun, b :: bytes =>
    let (pieces, next) := step begun b
    pieces ++ decodeFrom next bytes

def decode (bytes : Bytes) : List Piece :=
  decodeFrom none bytes

def Piece.lossyChar : Piece → Char
  | char c => c
  | invalid _ => '\uFFFD'

def Piece.char? : Piece → Option Char
  | char c => some c
  | invalid _ => none

def lossyChars (bytes : Bytes) : List Char :=
  (decode bytes).map Piece.lossyChar

def lossy (bytes : Bytes) : String :=
  .ofList (lossyChars bytes)

/-- The text that the bytes encode, if they are UTF-8 throughout. -/
def text? (bytes : Bytes) : Option String :=
  ((decode bytes).mapM Piece.char?).map .ofList

end Utf8

end IconPainter
