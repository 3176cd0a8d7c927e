/-!
What can be wrong with YAML text.

A text may be broken as a whole. A scalar of a well-formed text may also have the form of something that
does not exist, and such a scalar is told apart by its own kind of fault.
-/

namespace ClientTypes.Yaml

/-- Why a scalar has no value although it has the form of one. -/
inductive ScalarFault where
  /-- The form of a number, a day or a character that does not exist. -/
  | impossible
  /-- A number that is too large to be worked with. -/
  | tooLarge
deriving DecidableEq, Repr

/-- Why a text has no value. -/
inductive Fault where
  /-- The text is not well formed. -/
  | malformed
  | badScalar (fault : ScalarFault)
deriving DecidableEq, Repr

end ClientTypes.Yaml
