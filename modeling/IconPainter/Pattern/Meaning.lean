import IconPainter.Pattern.Tree

/-! # What patterns mean

The modes in force decide what a character, the dot, an anchor or a class means.
Modes hold from where they are switched to the end of the group around, through all
its choices. Only the cases of ASCII letters and the ASCII words, digits and blanks are
known, and a pattern must not tell parts of a character apart. So what would need to
know more, or would do that, means nothing.
-/

namespace IconPainter.Pattern

inductive Look where
  | textStart
  | textEnd
  | lineStart
  | lineEnd
  /-- The start of a line after a break of one character or two. -/
  | lineStartAny
  /-- The end of a line before a break of one character or two. -/
  | lineEndAny
  | wordEdge
  | noWordEdge
  | wordStart
  | wordEnd
deriving DecidableEq, Repr

/-- What a pattern stands for. Of two ways to go on, the first is tried first. -/
inductive Expr where
  | empty
  | set (s : CharSet)
  | look (l : Look)
  | seq (first rest : Expr)
  | alt (first rest : Expr)
  /-- No or one time. -/
  | opt (greedy : Bool) (body : Expr)
  /-- Once or more often. -/
  | plus (greedy : Bool) (body : Expr)
  /-- What `plus` goes on with after each time. -/
  | again (greedy : Bool) (body : Expr)
deriving DecidableEq, Repr

/-- The modes in force, other than those that only the reader knows. -/
structure Modes where
  caseless : Bool
  lines : Bool
  dotAll : Bool
  swapped : Bool
  characters : Bool
  twoCharBreaks : Bool
deriving DecidableEq, Repr

namespace Modes

def initial : Modes := ⟨false, false, false, false, true, false⟩

def set (m : Modes) : Mode × Bool → Modes
  | (.caseless, on) => { m with caseless := on }
  | (.lines, on) => { m with lines := on }
  | (.dotAll, on) => { m with dotAll := on }
  | (.swapped, on) => { m with swapped := on }
  | (.characters, on) => { m with characters := on }
  | (.twoCharBreaks, on) => { m with twoCharBreaks := on }
  | (.verbose, _) => m

def switch (m : Modes) (switches : Switches) : Modes := switches.foldl set m

end Modes

namespace Shorthand

def ascii : Shorthand → CharSet
  | digit => .range 48 57
  | space => .ofRanges [(9, 13), (32, 32)]
  | word => .ofRanges [(48, 57), (65, 90), (95, 95), (97, 122)]

def meaning? (m : Modes) (kind : Shorthand) (negated : Bool) : Option CharSet :=
  if m.characters || negated then none else some kind.ascii

end Shorthand

def SetOperator.apply : SetOperator → CharSet → CharSet → CharSet
  | inter => .inter
  | diff => .diff
  | symmDiff => .symmDiff

namespace ClassTree

def close (m : Modes) (negated : Bool) (s : CharSet) : Option CharSet :=
  let s := if m.caseless then s.bothCases else s
  let s := if negated then s.complement else s
  if m.characters || s.isAscii then some s else none

def meaning? (m : Modes) : ClassTree → Option CharSet
  | empty => some .empty
  | range first last =>
    if m.characters then if m.caseless then none else some (.range first.toNat last.toNat)
    else if last.toNat < 128 then some (.range first.toNat last.toNat) else none
  | named s negated => if m.characters && m.caseless then none else close m negated s
  | shorthand kind negated => kind.meaning? m negated
  | bracket negated inner => (inner.meaning? m).bind (close m negated)
  | union first rest => do some ((← first.meaning? m).union (← rest.meaning? m))
  | combine op left right => do
    let left ← left.meaning? m
    let right ← right.meaning? m
    some (if m.caseless then op.apply left.bothCases right.bothCases else op.apply left right)

end ClassTree

namespace Anchor

def meaning? (m : Modes) : Anchor → Option Look
  | lineStart =>
    if m.lines then if m.twoCharBreaks then some .lineStartAny else some .lineStart
    else some .textStart
  | lineEnd =>
    if m.lines then if m.twoCharBreaks then some .lineEndAny else some .lineEnd
    else some .textEnd
  | textStart => some .textStart
  | textEnd => some .textEnd
  | wordEdge => if m.characters then none else some .wordEdge
  | noWordEdge => if m.characters then none else some .noWordEdge
  | wordStart => if m.characters then none else some .wordStart
  | wordEnd => if m.characters then none else some .wordEnd

end Anchor

namespace Tree

def charMeaning? (m : Modes) (c : Char) (asByte : Bool) : Option Expr :=
  let single := CharSet.range c.toNat c.toNat
  if m.characters then if m.caseless then none else some (.set single)
  else if asByte && 128 ≤ c.toNat then none
  else some (.set (if m.caseless then single.bothCases else single))

def dotMeaning? (m : Modes) : Option Expr :=
  if !m.characters then none
  else if m.dotAll then some (.set .all)
  else if m.twoCharBreaks then some (.set (CharSet.complement (.ofRanges [(10, 10), (13, 13)])))
  else some (.set (CharSet.complement (.range 10 10)))

/-- A repetition. From no time on it is one from one time on that may be left out. -/
def repeated (fromOne many greedy : Bool) (body : Expr) : Expr :=
  let body := if many then .plus greedy body else body
  if fromOne then body else .opt greedy body

def meaning? (m : Modes) : Tree → Option (Expr × Modes)
  | empty => some (.empty, m)
  | switch modes => some (.empty, m.switch modes)
  | char c asByte => (charMeaning? m c asByte).map (·, m)
  | dot => (dotMeaning? m).map (·, m)
  | anchor kind => (kind.meaning? m).map (.look ·, m)
  | shorthand kind negated => (kind.meaning? m negated).map (.set ·, m)
  | bracket negated inner =>
    ((inner.meaning? m).bind (ClassTree.close m negated)).map (.set ·, m)
  | repetition body fromOne many greedy =>
    (body.meaning? m).map fun (e, _) => (repeated fromOne many (greedy != m.swapped) e, m)
  | group _ modes body => (body.meaning? (m.switch modes)).map fun (e, _) => (e, m)
  | seq first rest => do
    let (first, m) ← first.meaning? m
    let (rest, m) ← rest.meaning? m
    some (.seq first rest, m)
  | alt first rest => do
    let (first, m) ← first.meaning? m
    let (rest, m) ← rest.meaning? m
    some (.alt first rest, m)

end Tree

end IconPainter.Pattern
