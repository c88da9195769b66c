import IconPainter.Text.Utf8

/-! # Text without terminal controls

A text that came from elsewhere is shown without what would drive a terminal:
control characters other than white space, and escape sequences, which begin
with the escape character and go on as far as their kind does. Sequences are
read byte by byte, so one that holds a string may end inside a character; the
rest of that character is not shown either.
-/

namespace IconPainter.Text

/-- What the reader of a text is in the middle of. -/
inductive Control where
  | none
  /-- After the escape byte. -/
  | escape
  /-- A short sequence, which ends with its first byte from the digits on. -/
  | short
  /-- A sequence of parameters, which ends with its first letter. -/
  | parameters
  /-- The start of a device string, before any parameter or after some. -/
  | device (begun : Bool)
  /-- A device string after the intermediate bytes that follow its parameters. -/
  | intermediate
  /-- A string, which ends with the string terminator. -/
  | string
  /-- A string that the bell ends, and not the terminator. -/
  | title
deriving DecidableEq, Repr

def isLayout (b : UInt8) : Bool := b == 0x09 || b == 0x0a || b == 0x0c || b == 0x0d

def isShown (b : UInt8) : Bool :=
  isLayout b || 0x20 ≤ b && b ≤ 0x7e || 0xc2 ≤ b && b ≤ 0xf4

def Control.next (state : Control) (b : UInt8) : Control :=
  if b = 0x1b then .escape
  else if b = 0x18 ∨ b = 0x1a then .none
  else match state with
    | .none => .none
    | .escape =>
      if b = 0x5b then .parameters
      else if b = 0x5d then .title
      else if b = 0x50 then .device false
      else if b = 0x58 ∨ b = 0x5e ∨ b = 0x5f then .string
      else if 0x20 ≤ b ∧ b ≤ 0x2f then .short
      else if 0x30 ≤ b ∧ b ≤ 0x7e then .none
      else .escape
    | .short => if 0x30 ≤ b ∧ b ≤ 0x7e then .none else .short
    | .parameters => if 0x40 ≤ b ∧ b ≤ 0x7e then .none else .parameters
    | .device begun =>
      if 0x20 ≤ b ∧ b ≤ 0x2f then .intermediate
      else if 0x30 ≤ b ∧ b ≤ 0x3b then .device true
      else if 0x3c ≤ b ∧ b ≤ 0x3f then (if begun then .string else .device true)
      else if 0x40 ≤ b ∧ b ≤ 0x7e then .string
      else state
    | .intermediate => if 0x30 ≤ b ∧ b ≤ 0x7e then .string else .intermediate
    | .string => if b = 0x9c then .none else .string
    | .title => if b = 0x07 then .none else .title

def Control.yields : Control → Bool
  | .none | .escape | .short | .parameters => true
  | _ => false

/-- Read the bytes of a text. While `shown` holds no sequence is read, and the rest of
a character is shown with its first byte. -/
def plainFrom (state : Control) (shown : Bool) : Bytes → Bytes
  | [] => []
  | b :: bytes =>
    if state = .none ∧ (isShown b ∨ shown ∧ 0x80 ≤ b ∧ b ≤ 0xbf) then
      b :: plainFrom .none true bytes
    else if state.yields ∧ isLayout b then b :: plainFrom .none true bytes
    else plainFrom (state.next b) false bytes

def plain (text : String) : String :=
  Utf8.lossy (plainFrom .none true (.ofString text))

end IconPainter.Text
