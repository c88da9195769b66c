import IconPainter.Arguments.Similarity
import IconPainter.Path.Text
import IconPainter.Text.Terminal

/-! # Arguments

The program has one flag that may be repeated, to see more of the log, and the
usual two that ask for help and for the version. Arguments are read from left
to right, and the first that asks for a text or is not understood ends the
reading.
-/

namespace IconPainter

inductive Flag where
  | debug
  | help
  | version
deriving DecidableEq, Repr

namespace Flag

def name : Flag → String
  | debug => "debug"
  | help => "help"
  | version => "version"

def letter : Flag → Char
  | debug => 'd'
  | help => 'h'
  | version => 'V'

def usage : Flag → String
  | debug => "--debug..."
  | help => "--help"
  | version => "--version"

def all : List Flag := [debug, help, version]

def ofName? (name : Bytes) : Option Flag := all.find? (Bytes.ofString ·.name == name)

def ofLetter? (c : Char) : Option Flag := all.find? (·.letter == c)

/-- The flag whose name is most similar to a word, the last of several, if it is
more similar than the limit. -/
def similarTo? (word : List Char) : Option Flag :=
  let limit := Binary64.round (7 / 10)
  (all.foldl (fun best f =>
    let s := similarity word f.name.toList
    match best with
    | none => if limit < s then some (f, s) else none
    | some (g, t) => if limit < s ∧ t ≤ s then some (f, s) else some (g, t)) none).map Prod.fst

end Flag

/-- Why the arguments do not make the program run. -/
inductive Stop where
  | help
  | version
  /-- An argument that is not known, the flag that may have been meant, and the
  flags for the usage line. -/
  | unknown (shown : String) (tip : Option Flag) (used : List Flag)
  /-- A value for a flag that takes none; `debug` may have been given before. -/
  | value (value : String) (flag : Flag) (given : Bool)
deriving DecidableEq, Repr

namespace Stop

def helpText : String :=
  "Draws the placeholder crab application icon for the bundler\n\n" ++
  "Usage: gen-icon [OPTIONS]\n\n" ++
  "Options:\n" ++
  "  -d, --debug...  Raise log verbosity (-d info, -dd debug, -ddd trace)\n" ++
  "  -h, --help      Print help\n" ++
  "  -V, --version   Print version\n"

def usageLine (words : List String) : String :=
  "Usage: gen-icon " ++ if words = [] then "[OPTIONS]" else " ".intercalate words

/-- The words for a flag that takes no value. If `debug` was given before, it stands
in angle brackets at the end, and only there. -/
def valueUsage (f : Flag) (given : Bool) : List String :=
  if given then
    (if f = .debug then [] else [f.usage]) ++ ["<" ++ Flag.debug.usage ++ ">"]
  else [f.usage]

def explain (wrong : String) (tip : Option Flag) (words : List String) : String :=
  let hint := match tip with
    | none => ""
    | some f => s!"  tip: a similar argument exists: '--{f.name}'\n\n"
  s!"error: {wrong}\n\n" ++ hint ++ usageLine words ++ "\n\nFor more information, try '--help'.\n"

def message : Stop → String
  | help => helpText
  | version => "crab-icon 0.1.0\n"
  | unknown shown tip used =>
    explain s!"unexpected argument '{Text.plain shown}' found" tip (used.map Flag.usage)
  | value v f given =>
    explain s!"unexpected value '{Text.plain v}' for '{f.usage}' found; no more were expected" none
      (valueUsage f given)

def code : Stop → Nat
  | help | version => 0
  | unknown .. | value .. => 2

end Stop

namespace Arguments

def dash : UInt8 := 45

def equals : UInt8 := 61

def count (n : Nat) : Nat := min (n + 1) 255

def used (n : Nat) (f : Option Flag) : List Flag :=
  let given := if n = 0 then [] else [Flag.debug]
  match f with
  | none => given
  | some f => if f ∈ given then given else given ++ [f]

def noFlag (arg : Bytes) : Stop := .unknown (Utf8.lossy arg) none []

def takeFlag (n : Nat) : Flag → Except Stop Nat
  | .debug => .ok (count n)
  | .help => .error .help
  | .version => .error .version

def readLetters (n : Nat) : List Utf8.Piece → Except Stop Nat
  | [] => .ok n
  | .char c :: rest =>
    match Flag.ofLetter? c with
    | none => .error (.unknown (.ofList ['-', c]) none [])
    | some f =>
      match takeFlag n f with
      | .error stop => .error stop
      | .ok n => readLetters n rest
  | rest => .error (.unknown (.ofList ('-' :: rest.map Utf8.Piece.lossyChar)) none [])

/-- Read the flag after two dashes, with a value if an equals sign follows its name. -/
def readName (n : Nat) (word : Bytes) : Except Stop Nat :=
  let name := word.takeWhile (· != equals)
  match Flag.ofName? name with
  | none =>
    let tip := Flag.similarTo? (Utf8.lossyChars name)
    .error (.unknown ("--" ++ Utf8.lossy name) tip (used n tip))
  | some f =>
    match word.dropWhile (· != equals) with
    | [] => takeFlag n f
    | _ :: value => .error (.value (Utf8.lossy value) f (n != 0))

def readArgument (n : Nat) (arg : Bytes) : Except Stop Nat :=
  match arg with
  | a :: b :: rest =>
    if a = dash then
      if b = dash then readName n rest else readLetters n (Utf8.decode (b :: rest))
    else .error (noFlag arg)
  | _ => .error (noFlag arg)

/-- Read the arguments when `debug` was given `n` times. No flag follows two dashes
that stand alone. -/
def parseFrom (n : Nat) : List Bytes → Except Stop Nat
  | [] => .ok n
  | arg :: args =>
    if arg = [dash, dash] then
      match args with
      | [] => .ok n
      | arg :: _ => .error (noFlag arg)
    else
      match readArgument n arg with
      | .error stop => .error stop
      | .ok n => parseFrom n args

def parse (args : List Bytes) : Except Stop Nat := parseFrom 0 args

end Arguments

end IconPainter
