import IconPainter.Text.Lines

/-! # Log events

An event is a message with named values, sent at a level on behalf of a part
of the program, its target. It happens inside a number of spans, which say what
the program was doing.
-/

namespace IconPainter

/-- How grave an event is, from `error` down to what only a search for faults needs. -/
inductive Level where
  | error
  | warn
  | info
  | debug
  | trace
deriving DecidableEq, Repr

namespace Level

def rank : Level → Nat
  | error => 1
  | warn => 2
  | info => 3
  | debug => 4
  | trace => 5

def name : Level → String
  | error => "ERROR"
  | warn => "WARN"
  | info => "INFO"
  | debug => "DEBUG"
  | trace => "TRACE"

instance : LE Level := ⟨fun a b => a.rank ≤ b.rank⟩

instance (a b : Level) : Decidable (a ≤ b) := inferInstanceAs (Decidable (a.rank ≤ b.rank))

end Level

inductive Value where
  | number (n : Nat)
  | text (s : String)
deriving DecidableEq, Repr

structure Field where
  name : String
  value : Value
deriving DecidableEq, Repr

/-- What the program is doing while events happen. Spans are at level `info`. -/
structure Span where
  name : String
  target : String
  fields : List Field
deriving DecidableEq, Repr

/-- An event, in its spans from the outermost to the innermost. -/
structure Event where
  spans : List Span
  level : Level
  target : String
  message : String
  fields : List Field
deriving DecidableEq, Repr

def Value.render : Value → String
  | number n => toString n
  | text s => s

def Field.render (f : Field) : String := f.name ++ "=" ++ f.value.render

def Span.render (s : Span) : String :=
  s.name ++ "\x7b" ++ " ".intercalate (s.fields.map Field.render) ++ "\x7d"

namespace Event

def within (s : Span) (e : Event) : Event := { e with spans := s :: e.spans }

def render (e : Event) : String :=
  let spans := if e.spans = [] then "" else ":".intercalate (e.spans.map Span.render) ++ ": "
  let fields := e.fields.map fun f => " " ++ f.render
  e.level.name ++ " " ++ spans ++ e.target ++ ": " ++ e.message ++ String.join fields

def lines (e : Event) : List String :=
  (Text.lines (e.render ++ "\n")).map fun line => .ofList (Text.unindent line)

end Event

end IconPainter
