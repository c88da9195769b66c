import IconPainter.Log.Filter
import IconPainter.Text.Alphanumeric

/-! # Reading a filter

A filter is written as directives between commas. A directive is a level, or a
target with or without a level after an equals sign; between the two may stand
a span in brackets, with the name of a field in braces, and after an equals sign
the value that is asked for. Positions are counted without the blanks at the start,
but what stands there is taken from the whole text, so a directive after a blank is
not what it seems, and a position may be found inside a character.
-/

namespace IconPainter

inductive FilterError where
  /-- A directive is not written as it should be. -/
  | invalid
  /-- The directives cannot be read, since a position is inside a character. -/
  | insideCharacter
deriving DecidableEq, Repr

def unsignedDigits? (word : List Char) : Option (List Char) :=
  let digits := match word with
    | '+' :: digits => digits
    | digits => digits
  if digits != [] && digits.all Char.isDigit then some digits else none

/-- The level that a word names: its name in any case, or a digit from 0, which is
none, to 5. No word at all means `error`. -/
def Level.ofWord? (word : List Char) : Option (Option Level) :=
  match unsignedDigits? word with
  | some digits =>
    match digits.dropWhile (· == '0') with
    | [] => some none
    | ['1'] => some (some .error)
    | ['2'] => some (some .warn)
    | ['3'] => some (some .info)
    | ['4'] => some (some .debug)
    | ['5'] => some (some .trace)
    | _ => none
  | none =>
    match String.ofList (word.map Char.toLower) with
    | "" => some (some .error)
    | "off" => some none
    | "error" => some (some .error)
    | "warn" => some (some .warn)
    | "info" => some (some .info)
    | "debug" => some (some .debug)
    | "trace" => some (some .trace)
    | _ => none

namespace Wanted

def maxNumber : Nat := 0xFFFFFFFFFFFFFFFF

def number? (text : List Char) : Option Nat := do
  let digits ← unsignedDigits? text
  let n := digits.foldl (fun n c => 10 * n + (c.toNat - 48)) 0
  if n ≤ maxNumber then some n else none

def isExponent : List Char → Bool
  | [] => true
  | e :: text =>
    let digits := match text with
      | '-' :: digits | '+' :: digits => digits
      | digits => digits
    (e == 'e' || e == 'E') && digits != [] && digits.all Char.isDigit

/-- The text is a number with a sign, a fraction or an exponent, or a name for what
is no finite number. -/
def isReal (text : List Char) : Bool :=
  let body := match text with
    | '-' :: body | '+' :: body => body
    | body => body
  let whole := body.takeWhile Char.isDigit
  let afterWhole := body.dropWhile Char.isDigit
  let (fraction, rest) := match afterWhole with
    | '.' :: rest => (rest.takeWhile Char.isDigit, rest.dropWhile Char.isDigit)
    | rest => ([], rest)
  ["inf", "infinity", "nan"].contains (String.ofList (body.map Char.toLower)) ||
    (whole != [] || fraction != []) && isExponent rest

def ofText? (text : List Char) : Option Wanted :=
  if text = "true".toList ∨ text = "false".toList then some .never
  else match number? text with
    | some n => some (.number n)
    | none =>
      if isReal text then some .never else (Pattern.ofText? (.ofList text)).map .pattern

end Wanted

namespace Directive

/-- What the reader of a directive is in the middle of, and at which byte that began. -/
inductive Reading where
  | start
  | word (first : Nat)
  | span (first : Nat)
  | field (first : Nat)
  | fieldsDone
  | spanDone
  | level (first : Nat)
deriving DecidableEq, Repr

def splitAtByte : (count : Nat) → List Char → Option (List Char × List Char)
  | 0, text => some ([], text)
  | _, [] => none
  | count, c :: text =>
    if c.utf8Size ≤ count then
      (splitAtByte (count - c.utf8Size) text).map fun (first, rest) => (c :: first, rest)
    else none

def sliceFrom (text : List Char) (i : Nat) : Except FilterError (List Char) :=
  match splitAtByte i text with
  | none => .error .insideCharacter
  | some (_, rest) => .ok rest

def slice (text : List Char) (i j : Nat) : Except FilterError (List Char) := do
  match splitAtByte (j - i) (← sliceFrom text i) with
  | none => .error .insideCharacter
  | some (first, _) => .ok first

def fieldPattern? (text : List Char) : Option FieldPattern :=
  match text.splitOn '=' with
  | name :: value :: _ => (Wanted.ofText? value).map fun wanted => ⟨.ofList name, some wanted⟩
  | _ => some ⟨.ofList text, none⟩

def orInvalid {α : Type} : Option α → Except FilterError α
  | none => .error .invalid
  | some a => .ok a

def readChar (text : List Char) (d : Directive) (r : Reading) (i : Nat) (c : Char) :
    Except FilterError (Directive × Reading) :=
  match r with
  | .start =>
    if c = '[' then .ok (d, .span (i + 1))
    else if c = '-' || c = ':' || c = '_' || Text.isAlphanumeric c then .ok (d, .word i)
    else .error .invalid
  | .word first =>
    if c = '=' then do
      .ok ({ d with target := some (.ofList (← slice text first i)) }, .level (i + 1))
    else if c = '[' then do
      .ok ({ d with target := some (.ofList (← slice text first i)) }, .span (i + 1))
    else .ok (d, r)
  | .span first =>
    if c = ']' then do
      .ok ({ d with span := some (.ofList (← slice text first i)) }, .spanDone)
    else if c = '\x7b' then do
      let name ← slice text first i
      .ok ({ d with span := if name = [] then none else some (.ofList name) }, .field (i + 1))
    else .ok (d, r)
  | .field first =>
    if c = '\x7d' then do
      let field ← slice text first i
      if field = [] then .error .invalid
      else .ok ({ d with fields := d.fields ++ [← orInvalid (fieldPattern? field)] }, .fieldsDone)
    else .ok (d, r)
  | .fieldsDone => if c = ']' then .ok (d, .spanDone) else .error .invalid
  | .spanDone => if c = '=' then .ok (d, .level (i + 1)) else .error .invalid
  | .level _ => .ok (d, r)

def readFrom (text : List Char) (d : Directive) (r : Reading) (i : Nat) :
    List Char → Except FilterError (Directive × Reading)
  | [] => .ok (d, r)
  | c :: rest => do
    let (d, r) ← readChar text d r i c
    readFrom text d r (i + c.utf8Size) rest

def finish (text : List Char) (d : Directive) : Reading → Except FilterError Directive
  | .word first => do
    let word ← sliceFrom text first
    if word = [] then .ok { d with level := some .trace, target := none }
    else match Level.ofWord? word with
      | some level => .ok { d with level, target := none }
      | none => .ok { d with level := some .trace, target := some (.ofList word) }
  | .level first => do
    let word ← sliceFrom text first
    if word = [] then .ok { d with level := some .trace }
    else do .ok { d with level := ← orInvalid (Level.ofWord? word) }
  | .spanDone => .ok d
  | _ => .error .invalid

def trimmed (text : List Char) : List Char :=
  ((text.dropWhile Text.isBlank).reverse.dropWhile Text.isBlank).reverse

def ofText (text : List Char) : Except FilterError Directive := do
  let (d, r) ← readFrom text ⟨none, none, [], some .trace⟩ .start 0 (trimmed text)
  finish text d r

end Directive

/-- The filter that a text is. Of several faults the first one counts. -/
def Filter.ofText (text : String) : Except FilterError Filter := do
  let ds ← ((text.toList.splitOn ',').filter (· != [])).mapM Directive.ofText
  return .ofDirectives ds

end IconPainter
