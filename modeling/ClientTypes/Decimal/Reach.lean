/-!
How many digits an integer may have.

Integers have no bounds, but an integer with too many decimal digits is neither read nor written. It can
still come from another base.
-/

namespace ClientTypes.Decimal

/-- The number of decimal digits beyond which an integer is neither read nor written. -/
def integerReach : Nat := 4300

/-- An integer has few enough digits to be written. An integer with few enough bits has, so most integers
are not compared with a long number. -/
def isWritable (n : Int) : Bool := n.natAbs.log2 < 14284 || n.natAbs < Nat.pow 10 integerReach

end ClientTypes.Decimal
