import IconPainter.Log.Event
import IconPainter.Pattern.Matching

/-! # Log filters

A filter is made of directives. A static directive sets the most verbose level
kept for the targets that begin as it says; of several the most specific one
decides. A dynamic directive names a span, by its name or its fields, shows it,
and sets the level kept inside it. What is more verbose than all directives is
not there at all, be it a span that is named.
-/

namespace IconPainter

inductive Wanted where
  /-- A truth value or a number with a fraction, which no value is. -/
  | never
  | number (n : Nat)
  | pattern (p : Pattern)
deriving DecidableEq, Repr

namespace Wanted

def accepts : Wanted → Value → Bool
  | number n, .number m => n == m
  | pattern p, .text s => p.accepts s
  | _, _ => false

end Wanted

structure FieldPattern where
  name : String
  value : Option Wanted
deriving DecidableEq, Repr

/-- One rule of a filter. The level `none` keeps nothing. -/
structure Directive where
  target : Option String
  span : Option String
  fields : List FieldPattern
  level : Option Level
deriving DecidableEq, Repr

def keeps (limit : Option Level) (level : Level) : Bool :=
  match limit with
  | none => false
  | some most => level ≤ most

def mostVerbose (levels : List (Option Level)) : Option Level :=
  levels.foldl (fun best level =>
    match best, level with
    | some b, some l => if b ≤ l then some l else some b
    | none, l => l
    | b, none => b) none

namespace Directive

def upTo (level : Option Level) : Directive := ⟨none, none, [], level⟩

def isDynamic (d : Directive) : Bool := d.span.isSome || d.fields != []

def wantsValue (d : Directive) : Bool := d.fields.any (·.value.isSome)

def isStatic (d : Directive) : Bool := d.span.isNone && !d.wantsValue

def sameSubject (a b : Directive) : Bool :=
  a.target == b.target && a.span == b.span && a.fields == b.fields

def matchesTarget (d : Directive) (target : String) : Bool :=
  match d.target with
  | none => true
  | some t => t.toList.isPrefixOf target.toList

def fieldNames (d : Directive) : List String := d.fields.map (·.name)

/-- Of two directives that match, the one with the longer target decides, then
the one with more fields, then the one whose fields have the greater names. -/
def atLeastAsSpecific (a b : Directive) : Bool :=
  let weight (d : Directive) := match d.target with
    | none => 0
    | some t => t.utf8ByteSize + 1
  weight b < weight a || weight a == weight b &&
    (b.fields.length < a.fields.length || a.fields.length == b.fields.length &&
      !decide (a.fieldNames < b.fieldNames))

end Directive

/-- The static directives and the dynamic ones, in the order given, and the most
verbose level that anything has. -/
structure Filter where
  statics : List Directive
  dynamics : List Directive
  limit : Option Level
deriving DecidableEq, Repr

namespace Filter

def lastOfEach (ds : List Directive) : List Directive :=
  ds.foldr (fun d later => if later.any d.sameSubject then later else d :: later) []

/-- The most verbose level of some directives. All spans must be there if values are
asked for, since a span has none before it is there. -/
def limitOf (ds : List Directive) : Option Level :=
  if ds.any (·.wantsValue) then some .trace else mostVerbose (ds.map (·.level))

def ofDirectives (ds : List Directive) : Filter :=
  let dynamics := ds.filter Directive.isDynamic
  let statics := ds.filter (!·.isDynamic) ++ dynamics.filter Directive.isStatic
  if ds = [] then ⟨[.upTo (some .error)], [], some .error⟩
  else ⟨statics, lastOfEach dynamics, limitOf ds⟩

def upTo (level : Level) : Filter := .ofDirectives [.upTo (some level)]

def decidingLevel (ds : List Directive) : Option Level :=
  (ds.foldl (fun best d =>
    match best with
    | none => some d
    | some b => if d.atLeastAsSpecific b then some d else some b) none).bind (·.level)

def keepsStatically (f : Filter) (e : Event) : Bool :=
  keeps (decidingLevel (f.statics.filter fun d =>
    d.matchesTarget e.target &&
      d.fields.all fun p => p.name == "message" || e.fields.any (·.name == p.name))) e.level

def showsStatically (f : Filter) (s : Span) : Bool :=
  keeps (decidingLevel (f.statics.filter (·.matchesTarget s.target))) .info

def directivesFor (f : Filter) (s : Span) : List Directive :=
  f.dynamics.filter fun d =>
    d.matchesTarget s.target && (d.span.isNone || d.span == some s.name) &&
      d.fields.all fun p => s.fields.any (·.name == p.name)

def acceptsValues (d : Directive) (s : Span) : Bool :=
  d.fields.all fun p =>
    match p.value with
    | none => true
    | some wanted => s.fields.any fun x => x.name == p.name && wanted.accepts x.value

def levelInside (ds : List Directive) (s : Span) : Option Level :=
  mostVerbose ((ds.filter (acceptsValues · s)).map (·.level))

/-- Of nested spans, those that are shown, with the levels kept inside them;
`around` are the levels kept so far. -/
def shownFrom (f : Filter) (around : List (Option Level)) :
    List Span → List Span × List (Option Level)
  | [] => ([], around)
  | s :: spans =>
    match f.directivesFor s with
    | [] =>
      let shown := f.showsStatically s || around.any (keeps · .info)
      let rest := f.shownFrom around spans
      (if shown then s :: rest.1 else rest.1, rest.2)
    | ds =>
      let rest := f.shownFrom (levelInside ds s :: around) spans
      (s :: rest.1, rest.2)

def shown (f : Filter) (spans : List Span) : List Span × List (Option Level) :=
  if keeps f.limit .info then f.shownFrom [] spans else ([], [])

def keep? (f : Filter) (e : Event) : Option Event :=
  let (spans, levels) := f.shown e.spans
  if levels.any (keeps · e.level) || f.keepsStatically e then some { e with spans } else none

def apply (f : Filter) (events : List Event) : List Event :=
  events.filterMap f.keep?

end Filter

end IconPainter
