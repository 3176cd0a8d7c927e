import ClientTypes.Decimal.Binary

/-!
The shortest decimal that reads back as a given number, and its texts.

A decimal reads back as `x` when it lies in the interval of reals that round to `x`; the ends of
the interval count when the significand of `x` is even. For one digit, two digits, and so on, only
the two neighbours of `x` with that many digits can be the first to lie inside.
-/

namespace ClientTypes.Decimal

/-- A positive decimal `digits * 10 ^ exponent`. -/
structure Scaled where
  digits : Nat
  exponent : Int
deriving DecidableEq, Repr

/-- The same decimal without zeros at the end of its digits, of which at most `count` are
dropped. -/
def Scaled.withoutZeros : (count : Nat) → Scaled → Scaled
  | 0, d => d
  | count + 1, d =>
    if d.digits % 10 = 0 then withoutZeros count ⟨d.digits / 10, d.exponent + 1⟩ else d

/-- `10 ^ k` as a numerator and a denominator. -/
def powerOfTen (k : Int) : Nat × Nat := if 0 ≤ k then (tenTo k.toNat, 1) else (1, tenTo (-k).toNat)

/-- The place of the first digit of a positive number `numerator / denominator`: the `e` with
`10 ^ e ≤ number < 10 ^ (e + 1)`. The search for small numbers ends after `fuel` places. -/
def leadingPlace (numerator denominator : Nat) : Int :=
  if denominator ≤ numerator then ((Nat.toDigits 10 (numerator / denominator)).length : Int) - 1
  else search 400 1
where
  /-- The first negative place at which the number has a digit. -/
  search : Nat → Nat → Int
    | 0, j => -(j : Int)
    | fuel + 1, j => if denominator ≤ numerator * tenTo j then -(j : Int) else search fuel (j + 1)

/-- The decimal of `count` digits nearest to a positive number among those that read back as it.
The number is `m * 2 ^ q`; distances are measured in quarters of its unit. -/
def nearestOf? (x : Binary64) (place : Int) (count : Nat) : Option Scaled :=
  let m := x.significand
  let (up, down) := powerOfTwo (x.scale - 2)
  let k := place - ((count : Int) - 1)
  let (tens, tenths) := powerOfTen k
  let value := 4 * m * up * tenths
  let step := tens * down
  let gapBelow := if x.fractionBits = 0 ∧ 1 < x.exponentBits then 1 else 2
  let lowest := (4 * m - gapBelow) * up * tenths
  let highest := (4 * m + 2) * up * tenths
  let inside (d : Nat) : Bool :=
    if m % 2 = 0 then lowest ≤ d * step && d * step ≤ highest
    else lowest < d * step && d * step < highest
  let low := value / step
  let high := low + 1
  let lowDistance := value - low * step
  let highDistance := high * step - value
  if inside low && inside high then
    if lowDistance < highDistance then some ⟨low, k⟩
    else if highDistance < lowDistance then some ⟨high, k⟩
    else if low % 2 = 0 then some ⟨low, k⟩ else some ⟨high, k⟩
  else if inside low && 0 < low then some ⟨low, k⟩
  else if inside high then some ⟨high, k⟩
  else none

/-- The shortest decimal that reads back as the size of a number that is neither zero nor special.
The upper neighbour of a run of nines is a power of ten, whose zeros are dropped. Seventeen digits
always read back, so the last case is not reached. -/
def shortest (x : Binary64) : Scaled :=
  let (up, down) := powerOfTwo x.scale
  let place := leadingPlace (x.significand * up) down
  let found := (List.range 17).findSome? fun n => nearestOf? x place (n + 1)
  (found.getD ⟨x.significand, x.scale⟩).withoutZeros 17

/-- How the digits of a number are laid out. -/
structure Layout where
  /-- The point stands at most this many places before the first digit. -/
  leadingZeros : Nat
  /-- The point stands at most this many places after the first digit. -/
  wholeDigits : Nat
  /-- A positive exponent has a plus sign. -/
  plusSign : Bool
  /-- An exponent has at least this many digits. -/
  exponentDigits : Nat

/-- Fill a number up to a width with zeros in front. -/
def paddedTo (width n : Nat) : List Char :=
  let digits := Nat.toDigits 10 n
  List.replicate (width - digits.length) '0' ++ digits

/-- Lay out the digits of a decimal whose point stands `point` places after its first digit. -/
def Layout.place (layout : Layout) (digits : List Char) (point : Int) : List Char :=
  if 0 < point ∧ point ≤ layout.wholeDigits then
    let whole := point.toNat
    if digits.length ≤ whole then
      digits ++ List.replicate (whole - digits.length) '0' ++ ['.', '0']
    else digits.take whole ++ '.' :: digits.drop whole
  else if point ≤ 0 ∧ -point ≤ layout.leadingZeros then
    '0' :: '.' :: List.replicate (-point).toNat '0' ++ digits
  else
    let exponent := point - 1
    let fraction := match digits.drop 1 with
      | [] => []
      | rest => '.' :: rest
    let sign := if exponent < 0 then ['-'] else if layout.plusSign then ['+'] else []
    digits.take 1 ++ fraction ++ 'e' :: sign ++ paddedTo layout.exponentDigits exponent.natAbs

def Layout.render (layout : Layout) (x : Binary64) : String :=
  let sign := if x.isNegative then "-" else ""
  if x.isSpecial then if x.fractionBits = 0 then sign ++ "inf" else "nan"
  else if x.isZero then sign ++ "0.0"
  else
    let d := shortest x
    let digits := Nat.toDigits 10 d.digits
    sign ++ String.ofList (layout.place digits (d.exponent + digits.length))

/-- The layout of numbers inside texts: `1e+16` from sixteen whole digits on, `1e-05` below four
places. -/
def textLayout : Layout := ⟨3, 16, true, 2⟩

/-- The layout of numbers in a written file: `1e+16` from sixteen whole digits on, `1e-6` below five
places. -/
def fileLayout : Layout := ⟨4, 16, true, 1⟩

end ClientTypes.Decimal
