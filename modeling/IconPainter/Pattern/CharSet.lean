/-! # Sets of characters

A set of characters is a list of ranges in ascending order that neither meet
nor touch, so that there is one list for each set.
-/

namespace IconPainter.Pattern

/-- Characters by their numbers; each pair is the first and the last of a range. -/
structure CharSet where
  ranges : List (Nat × Nat)
deriving DecidableEq, Repr

namespace CharSet

def empty : CharSet := ⟨[]⟩

def last : Nat := 0x10FFFF

def all : CharSet := ⟨[(0, last)]⟩

def contains (s : CharSet) (c : Char) : Bool :=
  s.ranges.any fun (a, b) => a ≤ c.toNat && c.toNat ≤ b

/-- The ranges with one more, which begins before all of them, joined to those that
it meets or touches. -/
def push (a b : Nat) : List (Nat × Nat) → List (Nat × Nat)
  | [] => [(a, b)]
  | (c, d) :: ranges => if c ≤ b + 1 then push a (max b d) ranges else (a, b) :: (c, d) :: ranges

def ofRanges (ranges : List (Nat × Nat)) : CharSet :=
  ⟨(ranges.mergeSort fun x y => x.1 ≤ y.1).foldr (fun (a, b) s => push a b s) []⟩

def range (a b : Nat) : CharSet := ⟨[(a, b)]⟩

def union (s t : CharSet) : CharSet := ofRanges (s.ranges ++ t.ranges)

def gaps (first : Nat) : List (Nat × Nat) → List (Nat × Nat)
  | [] => if first ≤ last then [(first, last)] else []
  | (a, b) :: ranges => (if first < a then [(first, a - 1)] else []) ++ gaps (b + 1) ranges

def complement (s : CharSet) : CharSet := ⟨gaps 0 s.ranges⟩

def inter (s t : CharSet) : CharSet := (s.complement.union t.complement).complement

def diff (s t : CharSet) : CharSet := s.inter t.complement

def symmDiff (s t : CharSet) : CharSet := (s.diff t).union (t.diff s)

def isAscii (s : CharSet) : Bool := s.ranges.all (·.2 < 128)

def bothCases (s : CharSet) : CharSet :=
  let shifted := s.ranges.flatMap fun (a, b) =>
    (if max a 65 ≤ min b 90 then [(max a 65 + 32, min b 90 + 32)] else []) ++
      if max a 97 ≤ min b 122 then [(max a 97 - 32, min b 122 - 32)] else []
  ofRanges (s.ranges ++ shifted)

end CharSet

end IconPainter.Pattern
