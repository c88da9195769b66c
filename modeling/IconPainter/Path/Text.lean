import IconPainter.Path.Basic
import IconPainter.Text.Printable

/-! # Paths in messages

A message shows a path with U+FFFD for what is not UTF-8. A quoted path is
unambiguous: what cannot be seen is written as an escape sequence, and bytes
that are not UTF-8 as two hexadecimal digits each.
-/

namespace IconPainter

namespace Text

def digits (base n : Nat) : List Char := Nat.toDigits base n

def hexByte (b : UInt8) : List Char :=
  [Nat.digitChar (b.toNat / 16), Nat.digitChar (b.toNat % 16)].map Char.toUpper

def quoteChar (c : Char) : List Char :=
  if c = '\x00' then ['\\', '0']
  else if c = '\t' then ['\\', 't']
  else if c = '\r' then ['\\', 'r']
  else if c = '\n' then ['\\', 'n']
  else if c = '\\' ∨ c = '"' then ['\\', c]
  else if isPrintable c then [c]
  else ['\\', 'u', '\x7b'] ++ digits 16 c.toNat ++ ['\x7d']

def quotePiece : Utf8.Piece → List Char
  | .char c => quoteChar c
  | .invalid bytes => bytes.flatMap fun b => '\\' :: 'x' :: hexByte b

end Text

namespace Path

/-- The path as it stands in a sentence. -/
def display (p : Path) : String := Utf8.lossy p.bytes

/-- The path in quotation marks. -/
def quoted (p : Path) : String :=
  .ofList ('"' :: (Utf8.decode p.bytes).flatMap Text.quotePiece ++ ['"'])

end Path

end IconPainter
