import IconPainter.Pattern.Tree
import IconPainter.Text.Alphanumeric

/-! # Reading patterns

The text of a pattern is read into a tree from left to right. A pattern is
taken from a place where no closing brace can stand, so an opening brace that
counts repetitions, and every escape that needs braces, is refused.
-/

namespace IconPainter.Pattern

namespace Reader

def skipFrom : (inComment : Bool) → List Char → List Char
  | _, [] => []
  | true, c :: text => skipFrom (c != '\n') text
  | false, c :: text =>
    if Text.isBlank c then skipFrom false text
    else if c = '#' then skipFrom true text
    else c :: text

def skip (verbose : Bool) (text : List Char) : List Char :=
  if verbose then skipFrom false text else text

def peek (verbose : Bool) (text : List Char) : Option Char :=
  if verbose then
    let found := match text.dropWhile Text.isBlank with
      | '#' :: rest => (rest.dropWhile Text.isBlank).head?
      | rest => rest.head?
    found <|> text.head?
  else text.head?

def isMeta (c : Char) : Bool :=
  "\\.+*?()|[]\x7b\x7d^$#&-~".toList.contains c

def isQuotable (c : Char) : Bool :=
  isMeta c || c.toNat < 128 && !c.isAlphanum && c != '<' && c != '>'

def hexDigit? (c : Char) : Option Nat :=
  if c.isDigit then some (c.toNat - 48)
  else if 'a' ≤ c ∧ c ≤ 'f' then some (c.toNat - 87)
  else if 'A' ≤ c ∧ c ≤ 'F' then some (c.toNat - 55)
  else none

def charOf? (n : Nat) : Option Char :=
  if n.isValidChar then some (.ofNat n) else none

def readHex (verbose : Bool) : (count value : Nat) → List Char → Option (Nat × List Char)
  | 0, value, text => some (value, text)
  | count + 1, value, text =>
    match skip verbose text with
    | [] => none
    | c :: rest => do readHex verbose count (value * 16 + (← hexDigit? c)) rest

def hexLength? : Char → Option Nat
  | 'x' => some 2
  | 'u' => some 4
  | 'U' => some 8
  | _ => none

def letterEscape? : Char → Option Tree
  | 'd' => some (.shorthand .digit false)
  | 's' => some (.shorthand .space false)
  | 'w' => some (.shorthand .word false)
  | 'D' => some (.shorthand .digit true)
  | 'S' => some (.shorthand .space true)
  | 'W' => some (.shorthand .word true)
  | 'a' => some (.char '\x07' false)
  | 'f' => some (.char '\x0c' false)
  | 't' => some (.char '\t' false)
  | 'n' => some (.char '\n' false)
  | 'r' => some (.char '\r' false)
  | 'v' => some (.char '\x0b' false)
  | 'A' => some (.anchor .textStart)
  | 'z' => some (.anchor .textEnd)
  | 'b' => some (.anchor .wordEdge)
  | 'B' => some (.anchor .noWordEdge)
  | '<' => some (.anchor .wordStart)
  | '>' => some (.anchor .wordEnd)
  | _ => none

def readEscape (verbose : Bool) : List Char → Option (Tree × List Char)
  | [] => none
  | c :: text =>
    match hexLength? c with
    | some count => do
      let (value, rest) ← readHex verbose count 0 text
      some (.char (← charOf? value) (c == 'x'), rest)
    | none =>
      if isQuotable c then some (.char c false, text)
      else (letterEscape? c).map (·, text)

/-! ## Classes -/

def named? : String → Option CharSet
  | "alnum" => some (.ofRanges [(48, 57), (65, 90), (97, 122)])
  | "alpha" => some (.ofRanges [(65, 90), (97, 122)])
  | "ascii" => some (.range 0 127)
  | "blank" => some (.ofRanges [(9, 9), (32, 32)])
  | "cntrl" => some (.ofRanges [(0, 31), (127, 127)])
  | "digit" => some (.range 48 57)
  | "graph" => some (.range 33 126)
  | "lower" => some (.range 97 122)
  | "print" => some (.range 32 126)
  | "punct" => some (.ofRanges [(33, 47), (58, 64), (91, 96), (123, 126)])
  | "space" => some (.ofRanges [(9, 13), (32, 32)])
  | "upper" => some (.range 65 90)
  | "word" => some (.ofRanges [(48, 57), (65, 90), (95, 95), (97, 122)])
  | "xdigit" => some (.ofRanges [(48, 57), (65, 70), (97, 102)])
  | _ => none

def readNamed : List Char → Option (ClassTree × List Char)
  | ':' :: text =>
    let (negated, text) := match text with
      | '^' :: rest => (true, rest)
      | _ => (false, text)
    match text.dropWhile (· != ':') with
    | ':' :: ']' :: rest =>
      (named? (.ofList (text.takeWhile (· != ':')))).map (.named · negated, rest)
    | _ => none
  | _ => none

def readClassItem (verbose : Bool) : List Char → Option (Tree × List Char)
  | [] => none
  | '\\' :: text => readEscape verbose text
  | c :: text => some (.char c false, text)

def classItem? : Tree → Option ClassTree
  | .char c _ => some (.range c c)
  | .shorthand kind negated => some (.shorthand kind negated)
  | _ => none

def readRange (verbose : Bool) (text : List Char) : Option (ClassTree × List Char) := do
  let (first, rest) ← readClassItem verbose text
  match skip verbose rest with
  | [] => none
  | '-' :: rest =>
    if peek verbose rest = some ']' ∨ peek verbose rest = some '-' then
      (classItem? first).map (·, '-' :: rest)
    else
      let (last, rest) ← readClassItem verbose (skip verbose rest)
      match first, last with
      | .char a _, .char b _ => if a ≤ b then some (.range a b, rest) else none
      | _, _ => none
  | rest => (classItem? first).map (·, rest)

/-- The hyphens at the start of a class, and a closing bracket if it comes first. -/
def readOpening (verbose : Bool) : (fuel : Nat) → (items : List ClassTree) → List Char →
    Option (List ClassTree × List Char)
  | 0, _, _ => none
  | fuel + 1, items, text =>
    match skip verbose text with
    | [] => none
    | '-' :: rest => readOpening verbose fuel (.range '-' '-' :: items) rest
    | ']' :: rest => some (if items = [] then ([.range ']' ']'], rest) else (items, ']' :: rest))
    | rest => some (items, rest)

def setOperator? : Char → Option SetOperator
  | '&' => some .inter
  | '-' => some .diff
  | '~' => some .symmDiff
  | _ => none

def combined (left : Option (ClassTree × SetOperator)) (items : List ClassTree) : ClassTree :=
  let right := ClassTree.ofList items.reverse
  match left with
  | none => right
  | some (left, op) => .combine op left right

def readItems (verbose : Bool) : (fuel : Nat) → (left : Option (ClassTree × SetOperator)) →
    (items : List ClassTree) → List Char → Option (ClassTree × List Char)
  | 0, _, _, _ => none
  | fuel + 1, left, items, text =>
    match skip verbose text with
    | [] => none
    | ']' :: rest => some (combined left items, rest)
    | '[' :: rest =>
      match readNamed rest with
      | some (item, rest) => readItems verbose fuel left (item :: items) rest
      | none => do
        let (negated, rest) := readNegation verbose rest
        let (opening, rest) ← readOpening verbose fuel [] rest
        let (inner, rest) ← readItems verbose fuel none opening rest
        readItems verbose fuel left (.bracket negated inner :: items) rest
    | c :: rest =>
      match (if rest.head? = some c then setOperator? c else none) with
      | some op => readItems verbose fuel (some (combined left items, op)) [] (rest.drop 1)
      | none => do
        let (item, rest) ← readRange verbose (c :: rest)
        readItems verbose fuel left (item :: items) rest
where
  /-- The sign that means all other characters. -/
  readNegation (verbose : Bool) (text : List Char) : Bool × List Char :=
    match skip verbose text with
    | '^' :: rest => (true, rest)
    | rest => (false, rest)

def readClass (verbose : Bool) (text : List Char) : Option (Tree × List Char) := do
  let (negated, rest) := readItems.readNegation verbose text
  let (opening, rest) ← readOpening verbose (text.length + 1) [] rest
  let (inner, rest) ← readItems verbose (text.length + 1) none opening rest
  some (.bracket negated inner, rest)

/-! ## Groups -/

def mode? : Char → Option Mode
  | 'i' => some .caseless
  | 'm' => some .lines
  | 's' => some .dotAll
  | 'U' => some .swapped
  | 'u' => some .characters
  | 'R' => some .twoCharBreaks
  | 'x' => some .verbose
  | _ => none

/-- Read switches up to a colon or a closing parenthesis, which stays. Those after a
hyphen are off; there is one hyphen at most, and something after it, and no mode twice. -/
def readSwitches : (on : Bool) → (afterHyphen : Bool) → Switches → List Char →
    Option (Switches × List Char)
  | _, _, _, [] => none
  | on, afterHyphen, modes, c :: text =>
    if c = ':' || c = ')' then if afterHyphen then none else some (modes, c :: text)
    else if c = '-' then if on then readSwitches false true modes text else none
    else match mode? c with
      | none => none
      | some mode =>
        if modes.any (·.1 = mode) then none
        else readSwitches on false (modes ++ [(mode, on)]) text

def readName (text : List Char) : Option (String × List Char) :=
  let name := text.takeWhile (· != '>')
  match name, text.dropWhile (· != '>') with
  | first :: more, _ :: rest =>
    if (first = '_' || Text.isLetter first) &&
        more.all fun c => "_.[]".toList.contains c || Text.isAlphanumeric c
    then some (.ofList name, rest) else none
  | _, _ => none

/-- The start of a group, or switches for the rest of the group around. -/
inductive Head where
  | group (name : Option String) (modes : Switches)
  | switch (modes : Switches)

def readHead : List Char → Option (Head × List Char)
  | '?' :: '<' :: '=' :: _ => none
  | '?' :: '<' :: '!' :: _ => none
  | '?' :: '<' :: text | '?' :: 'P' :: '<' :: text =>
    (readName text).map fun (name, rest) => (.group (some name) [], rest)
  | '?' :: text =>
    match readSwitches true false [] text with
    | some ([], ')' :: _) => none
    | some (modes, ')' :: rest) => some (.switch modes, rest)
    | some (modes, _ :: rest) => some (.group none modes, rest)
    | _ => none
  | text => some (.group none [], text)

def isVerbose (verbose : Bool) (modes : Switches) : Bool :=
  ((modes.find? (·.1 = .verbose)).map (·.2)).getD verbose

def repetition? : Char → Option (Bool × Bool)
  | '?' => some (false, false)
  | '*' => some (false, true)
  | '+' => some (true, true)
  | _ => none

def repeatLast (fromOne many greedy : Bool) : List Tree → Option (List Tree)
  | [] | .switch _ :: _ => none
  | item :: items => some (.repetition item fromOne many greedy :: items)

def readItem (verbose : Bool) : List Char → Option (Tree × List Char)
  | [] => none
  | '\\' :: text => readEscape verbose text
  | '[' :: text => readClass verbose text
  | '.' :: text => some (.dot, text)
  | '^' :: text => some (.anchor .lineStart, text)
  | '$' :: text => some (.anchor .lineEnd, text)
  | '\x7b' :: _ => none
  | c :: text => some (.char c false, text)

/-- Read up to the end of the group or of the text. The choices before and the items
of this one are in reverse order. -/
def readTree : (fuel : Nat) → (verbose : Bool) → (choices items : List Tree) → List Char →
    Option (Tree × List Char)
  | 0, _, _, _, _ => none
  | fuel + 1, verbose, choices, items, text =>
    match skip verbose text with
    | [] => some (all choices items, [])
    | ')' :: rest => some (all choices items, ')' :: rest)
    | '|' :: rest => readTree fuel verbose (.seqOf items.reverse :: choices) [] rest
    | '(' :: rest =>
      match readHead (skip verbose rest) with
      | none => none
      | some (.switch modes, rest) =>
        readTree fuel (isVerbose verbose modes) choices (.switch modes :: items) rest
      | some (.group name modes, rest) =>
        match readTree fuel (isVerbose verbose modes) [] [] rest with
        | some (body, ')' :: rest) =>
          readTree fuel verbose choices (.group name modes body :: items) rest
        | _ => none
    | c :: rest =>
      match repetition? c with
      | some (fromOne, many) => do
        let lazy := rest.head? = some '?'
        let items ← repeatLast fromOne many (!lazy) items
        readTree fuel verbose choices items (if lazy then rest.drop 1 else rest)
      | none => do
        let (item, rest) ← readItem verbose (c :: rest)
        readTree fuel verbose choices (item :: items) rest
where
  /-- The choices with the last of them. -/
  all (choices items : List Tree) : Tree :=
    .altOf (.seqOf items.reverse :: choices).reverse

end Reader

def Tree.ofText? (text : List Char) : Option Tree :=
  match Reader.readTree (text.length + 1) false [] [] text with
  | some (t, []) => if t.depth ≤ maxDepth ∧ t.names.Nodup then some t else none
  | _ => none

end IconPainter.Pattern
