import IconPainter.Pattern.Meaning
import IconPainter.Pattern.Reader

/-! # Matching

A text is followed character by character along all ways to match a pattern, which
may begin at any place of it. Each way is a thread, and threads are kept in the order in
which the pattern would try them. When a thread is done, those after it are given up,
so a text matches if a thread is done at its end, and not if a better one is done before.
-/

namespace IconPainter

namespace Pattern

def isWord : Option Char → Bool
  | none => false
  | some c => c.isAlphanum || c == '_'

def Look.holds (before after : Option Char) : Look → Bool
  | textStart => before == none
  | textEnd => after == none
  | lineStart => before == none || before == some '\n'
  | lineEnd => after == none || after == some '\n'
  | lineStartAny =>
    before == none || before == some '\n' || before == some '\r' && after != some '\n'
  | lineEndAny =>
    after == none || after == some '\r' || after == some '\n' && before != some '\r'
  | wordEdge => isWord before != isWord after
  | noWordEdge => isWord before == isWord after
  | wordStart => !isWord before && isWord after
  | wordEnd => isWord before && !isWord after

def Expr.size : Expr → Nat
  | seq a b | alt a b => a.size + b.size + 1
  | opt _ a | plus _ a | again _ a => a.size + 1
  | _ => 1

def Expr.anywhere (e : Expr) : Expr :=
  .seq (.opt false (.plus false (.set .all))) e

/-- What is still to be matched, one after the other. -/
abbrev Thread := List Expr

namespace Thread

def either (greedy : Bool) (on stop : Thread) : List Thread :=
  if greedy then [on, stop] else [stop, on]

def expand (before after : Option Char) : Thread → Option (List Thread)
  | [] | .set _ :: _ => none
  | .empty :: k => some [k]
  | .look l :: k => some (if l.holds before after then [k] else [])
  | .seq a b :: k => some [a :: b :: k]
  | .alt a b :: k => some [a :: k, b :: k]
  | .opt greedy a :: k => some (either greedy (a :: k) k)
  | .plus greedy a :: k => some [a :: .again greedy a :: k]
  | .again greedy a :: k => some (either greedy (a :: .again greedy a :: k) k)

def take? (c : Char) : Thread → Option Thread
  | .set s :: k => if s.contains c then some k else none
  | _ => none

/-- Expand threads until none is left to be expanded, each at the first place where it
comes up. What was met is in `met`, the last first. -/
def settle (before after : Option Char) :
    (fuel : Nat) → (met : List Thread) → List Thread → List Thread
  | 0, met, _ => met
  | _, met, [] => met
  | fuel + 1, met, t :: ts =>
    if met.contains t then settle before after fuel met ts
    else settle before after fuel (t :: met) ((t.expand before after).getD [] ++ ts)

def settled (e : Expr) (before after : Option Char) (ts : List Thread) : List Thread :=
  (settle before after (4 * e.size + ts.length + 3) [] ts).reverse.filter
    (·.expand before after = none)

/-- The threads after a character. Those after one that was done are given up. -/
def next (c : Char) (ts : List Thread) : List Thread :=
  (ts.takeWhile (· != [])).filterMap (take? c)

def endsDone (e : Expr) (before : Option Char) (ts : List Thread) : List Char → Bool
  | [] => (settled e before none ts).contains []
  | c :: text => endsDone e (some c) (next c (settled e before (some c) ts)) text

end Thread

end Pattern

structure Pattern where
  text : String
  meaning : Pattern.Expr
deriving DecidableEq, Repr

namespace Pattern

def ofText? (text : String) : Option Pattern := do
  let tree ← Tree.ofText? text.toList
  let (meaning, _) ← tree.meaning? .initial
  some ⟨text, meaning⟩

def accepts (p : Pattern) (text : String) : Bool :=
  Thread.endsDone p.meaning.anywhere none [[p.meaning.anywhere]] text.toList

end Pattern

end IconPainter
