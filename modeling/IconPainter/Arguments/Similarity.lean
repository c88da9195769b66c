import IconPainter.Binary64

/-! # Similar words

The similarity of two words is the mean of three shares: how much of each word
matches the other in about the same place, and how many of the matches stand
in the same order. It is computed in binary64, from left to right.
-/

namespace IconPainter

namespace Similarity

def reach (a b : List Char) : Nat := max a.length b.length / 2 - 1

def findPlace (c : Char) (least most : Nat) (word : List Char) (taken : List Nat) : Option Nat :=
  (word.zipIdx.find? fun (c', j) =>
    c' == c && least ≤ j && j ≤ most && !taken.contains j).map Prod.snd

/-- The characters of `a`, from place `i` on, that match a place of `b`, with these
places; `taken` are the places matched before. -/
def matching (reach : Nat) (b : List Char) : (i : Nat) → (taken : List Nat) → List Char →
    List (Char × Nat)
  | _, _, [] => []
  | i, taken, c :: a =>
    match findPlace c (i - reach) (i + reach) b taken with
    | none => matching reach b (i + 1) taken a
    | some j => (c, j) :: matching reach b (i + 1) (j :: taken) a

def transpositions (found : List (Char × Nat)) (b : List Char) : Nat :=
  let inB := (b.zipIdx.filter fun (_, j) => found.any (·.2 == j)).map Prod.fst
  ((found.map Prod.fst).zip inB).countP (fun (c, c') => c != c') / 2

def share (n d : Nat) : Rat := Binary64.div n d

end Similarity

/-- How similar two words are, from zero to one. -/
def similarity (a b : List Char) : Rat :=
  if a = [] ∧ b = [] then 1
  else
    let found := Similarity.matching (Similarity.reach a b) b 0 [] a
    let n := found.length
    if n = 0 then 0
    else
      let both := Binary64.add (Similarity.share n a.length) (Similarity.share n b.length)
      let ordered := Similarity.share (n - Similarity.transpositions found b) n
      Binary64.div (Binary64.add both ordered) 3

end IconPainter
