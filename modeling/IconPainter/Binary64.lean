/-! # Binary64 arithmetic on rationals

A binary64 number is kept as the rational that it stands for. Each operation
computes the exact rational result and rounds it to the nearest number with 53
significant bits, the even one of two that are equally near. The exponent is
bounded below as in the format; no upper bound is kept, since a quotient of
picture coordinates comes nowhere near it.
-/

namespace IconPainter.Binary64

/-- The integer nearest to `n / d`, the even one of two that are equally near. -/
def nearestEven (n : Int) (d : Nat) : Int :=
  let q := n / d
  let twice := 2 * (n % d)
  if twice < d then q
  else if d < twice then q + 1
  else if q % 2 = 0 then q
  else q + 1

def scale (k : Int) : Nat := 1 <<< k.toNat

/-- The exponent `k` with `2 ^ k ≤ n / d < 2 ^ (k + 1)`, for positive `n` and `d`. -/
def floorLog2 (n d : Nat) : Int :=
  let k := (n.log2 : Int) - d.log2
  if d * scale k ≤ n * scale (-k) then k else k - 1

/-- The exponent of the last of the 53 significant bits of `x`. -/
def lastPlace (x : Rat) : Int :=
  max (floorLog2 x.num.natAbs x.den - 52) (-1074)

/-- The binary64 number nearest to `x`. -/
def round (x : Rat) : Rat :=
  if x.num = 0 then 0
  else
    let e := lastPlace x
    let m := nearestEven (x.num * scale (-e)) (x.den * scale e)
    mkRat (m * scale e) (scale (-e))

def add (x y : Rat) : Rat := round (x + y)

def sub (x y : Rat) : Rat := round (x - y)

def mul (x y : Rat) : Rat := round (x * y)

def div (x y : Rat) : Rat := round (x / y)

@[simp] theorem round_zero : round 0 = 0 := rfl

end IconPainter.Binary64
