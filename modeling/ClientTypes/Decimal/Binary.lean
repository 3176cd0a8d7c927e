/-!
Binary floating point numbers of 64 bits.

A number is kept as its bits, so equality is equality of bits and nothing here depends on the
arithmetic of the machine. A decimal, and the sum or product of two numbers, is rounded to the nearest
number, a tie to the even one, by exact arithmetic on natural numbers.
-/

namespace ClientTypes.Decimal

/-- The power of two with an exponent. -/
abbrev twoTo (exponent : Nat) : Nat := Nat.pow 2 exponent

abbrev tenTo (exponent : Nat) : Nat := Nat.pow 10 exponent

/-- `2 ^ q` as a numerator and a denominator. -/
def powerOfTwo (q : Int) : Nat × Nat := if 0 ≤ q then (twoTo q.toNat, 1) else (1, twoTo (-q).toNat)

/-- A binary floating point number of 64 bits: one sign bit, eleven bits of exponent, 52 bits of
fraction. -/
structure Binary64 where
  bits : UInt64
deriving DecidableEq, Repr, Inhabited

namespace Binary64

def isNegative (x : Binary64) : Bool := x.bits >>> 63 == 1

def exponentBits (x : Binary64) : Nat := ((x.bits >>> 52) &&& 0x7ff).toNat

def fractionBits (x : Binary64) : Nat := (x.bits &&& 0xfffffffffffff).toNat

/-- An infinity, or no number at all. -/
def isSpecial (x : Binary64) : Bool := x.exponentBits == 0x7ff

/-- The two zeros. -/
def isZero (x : Binary64) : Bool := x.exponentBits == 0 && x.fractionBits == 0

/-- The integer `m` in the size `m * 2 ^ q` of a number that is not special. -/
def significand (x : Binary64) : Nat :=
  if x.exponentBits = 0 then x.fractionBits else x.fractionBits + twoTo 52

/-- The integer `q` in the size `m * 2 ^ q` of a number that is not special. -/
def scale (x : Binary64) : Int :=
  if x.exponentBits = 0 then -1074 else (x.exponentBits : Int) - 1075

/-- The integer that a number is equal to; `none` when it has a fraction or is special. -/
def toInt? (x : Binary64) : Option Int :=
  if x.isSpecial then none
  else
    let size : Option Nat :=
      if 0 ≤ x.scale then some (x.significand * twoTo x.scale.toNat)
      else
        let unit := twoTo (-x.scale).toNat
        if x.significand % unit = 0 then some (x.significand / unit) else none
    size.map fun n => if x.isNegative then -(n : Int) else n

/-- `numerator / denominator` rounded to a natural number, a tie to the even one. -/
def roundHalfEven (numerator denominator : Nat) : Nat :=
  let low := numerator / denominator
  let twice := 2 * (numerator % denominator)
  if twice < denominator then low
  else if denominator < twice then low + 1
  else if low % 2 = 0 then low else low + 1

/-- `numerator / denominator / 2 ^ q` as a pair of natural numbers. -/
def shiftedBy (numerator denominator : Nat) (q : Int) : Nat × Nat :=
  if 0 ≤ q then (numerator, denominator * twoTo q.toNat)
  else (numerator * twoTo (-q).toNat, denominator)

/-- The bits of the positive number nearest to `numerator / denominator`. Sizes beyond the largest
number give the bits of infinity. -/
def nearestBits (numerator denominator : Nat) : Nat :=
  let guess : Int := (numerator.log2 : Int) - denominator.log2 - 53
  let wide := shiftedBy numerator denominator guess
  let fitted : Int := if twoTo 53 ≤ wide.1 / wide.2 then guess + 1 else guess
  let q : Int := if fitted < -1074 then -1074 else fitted
  let exact := shiftedBy numerator denominator q
  let m := roundHalfEven exact.1 exact.2
  let m' := if m = twoTo 53 then twoTo 52 else m
  let q' := if m = twoTo 53 then q + 1 else q
  if 971 < q' then 0x7ff * twoTo 52
  else if m' < twoTo 52 then m'
  else (q' + 1075).toNat * twoTo 52 + (m' - twoTo 52)

/-- The number nearest to `digits * 10 ^ exponent`. Exponents so far out that every number of that
many digits is infinite or zero are not computed. -/
def ofDecimal (negative : Bool) (digits : Nat) (exponent : Int) : Binary64 :=
  let length : Int := digits.log2 + 1
  let size : Nat :=
    if digits = 0 then 0
    else if 400 < exponent then 0x7ff * twoTo 52
    else if exponent < -400 - length then 0
    else if 0 ≤ exponent then nearestBits (digits * tenTo exponent.toNat) 1
    else nearestBits digits (tenTo (-exponent).toNat)
  ⟨UInt64.ofNat (if negative then twoTo 63 + size else size)⟩

/-- The size of a number that is not special, as a numerator and a denominator. -/
def sizeRatio (x : Binary64) : Nat × Nat :=
  let (up, down) := powerOfTwo x.scale
  (x.significand * up, down)

/-- The number nearest to `numerator / denominator`. -/
def ofRatio (numerator denominator : Nat) : Binary64 :=
  if numerator = 0 then ⟨0⟩ else ⟨UInt64.ofNat (nearestBits numerator denominator)⟩

/-- The sum of two numbers without signs. -/
def plus (x y : Binary64) : Binary64 :=
  if x.isSpecial then x
  else if y.isSpecial then y
  else
    let (a, b) := x.sizeRatio
    let (c, d) := y.sizeRatio
    ofRatio (a * d + c * b) (b * d)

/-- The product of two numbers without signs, of which the second is neither zero nor special. -/
def times (x y : Binary64) : Binary64 :=
  if x.isSpecial then x
  else
    let (a, b) := x.sizeRatio
    let (c, d) := y.sizeRatio
    ofRatio (a * c) (b * d)

def negated (x : Binary64) : Binary64 := ⟨x.bits ^^^ 0x8000000000000000⟩

end Binary64

end ClientTypes.Decimal
