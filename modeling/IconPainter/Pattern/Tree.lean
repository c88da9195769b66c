import IconPainter.Pattern.CharSet

/-! # Pattern trees

A pattern as it is written: what the reader makes of its text before modes say
what a character or an anchor means. Only the shape counts here; a tree that
is nested too deeply is no pattern.
-/

namespace IconPainter.Pattern

inductive Mode where
  /-- Both cases of a letter are meant. -/
  | caseless
  /-- Anchors hold at the ends of lines, too. -/
  | lines
  /-- The dot means line breaks, too. -/
  | dotAll
  /-- Repetitions are short where they would be long, and the other way round. -/
  | swapped
  /-- Characters are meant, and not bytes. -/
  | characters
  /-- A line may end in two characters. -/
  | twoCharBreaks
  /-- Blanks and comments in the pattern mean nothing. -/
  | verbose
deriving DecidableEq, Repr

abbrev Switches := List (Mode × Bool)

inductive Anchor where
  | lineStart
  | lineEnd
  | textStart
  | textEnd
  | wordEdge
  | noWordEdge
  | wordStart
  | wordEnd
deriving DecidableEq, Repr

inductive Shorthand where
  | digit
  | space
  | word
deriving DecidableEq, Repr

inductive SetOperator where
  | inter
  | diff
  | symmDiff
deriving DecidableEq, Repr

inductive ClassTree where
  | empty
  | range (first last : Char)
  /-- A class with a name, or all other characters. -/
  | named (set : CharSet) (negated : Bool)
  | shorthand (kind : Shorthand) (negated : Bool)
  | bracket (negated : Bool) (inner : ClassTree)
  | union (first rest : ClassTree)
  | combine (op : SetOperator) (left right : ClassTree)
deriving Repr

inductive Tree where
  | empty
  | switch (modes : Switches)
  /-- A character, which may be written as the number of a byte. -/
  | char (c : Char) (asByte : Bool)
  | dot
  | anchor (kind : Anchor)
  | shorthand (kind : Shorthand) (negated : Bool)
  | bracket (negated : Bool) (inner : ClassTree)
  /-- A repetition, from no or one time on, once or more often at most. -/
  | repetition (body : Tree) (fromOne many greedy : Bool)
  | group (name : Option String) (modes : Switches) (body : Tree)
  | seq (first rest : Tree)
  | alt (first rest : Tree)
deriving Repr

namespace ClassTree

/-- How deep the class is nested. A union counts once, however many parts it has. -/
def depthIn (inUnion : Bool) : ClassTree → Nat
  | bracket _ inner => inner.depthIn false + 1
  | union first rest =>
    max (first.depthIn false) (rest.depthIn true) + if inUnion then 0 else 1
  | combine _ left right => max (left.depthIn false) (right.depthIn false) + 1
  | _ => 0

def ofList : List ClassTree → ClassTree
  | [] => empty
  | [t] => t
  | t :: ts => union t (ofList ts)

end ClassTree

namespace Tree

/-- What a tree is a part of, where that is the same as the tree itself. -/
inductive Joint where
  | seq
  | alt
  | other
deriving DecidableEq, Repr

/-- How deep the tree is nested. A sequence counts once, however long it is, and so
does a choice. -/
def depthIn (joint : Joint) : Tree → Nat
  | bracket _ inner => inner.depthIn false + 1
  | repetition body _ _ _ => body.depthIn .other + 1
  | group _ _ body => body.depthIn .other + 1
  | seq first rest =>
    max (first.depthIn .other) (rest.depthIn .seq) + if joint = .seq then 0 else 1
  | alt first rest =>
    max (first.depthIn .other) (rest.depthIn .alt) + if joint = .alt then 0 else 1
  | _ => 0

def depth (t : Tree) : Nat := t.depthIn .other

def names : Tree → List String
  | group name _ body => name.toList ++ body.names
  | repetition body _ _ _ => body.names
  | seq first rest => first.names ++ rest.names
  | alt first rest => first.names ++ rest.names
  | _ => []

def seqOf : List Tree → Tree
  | [] => empty
  | [t] => t
  | t :: ts => seq t (seqOf ts)

def altOf : List Tree → Tree
  | [] => empty
  | [t] => t
  | t :: ts => alt t (altOf ts)

def maxDepth : Nat := 250

end Tree

end IconPainter.Pattern
