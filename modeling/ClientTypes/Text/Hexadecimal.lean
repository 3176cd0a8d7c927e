/-!
Hexadecimal digits.
-/

namespace ClientTypes.Text

/-- The value of a hexadecimal digit, whose letters may be small or capital. -/
def hexValue? (c : Char) : Option Nat :=
  if c.isDigit then some (c.toNat - 48)
  else if 'a' ≤ c ∧ c ≤ 'f' then some (c.toNat - 87)
  else if 'A' ≤ c ∧ c ≤ 'F' then some (c.toNat - 55)
  else none

end ClientTypes.Text
