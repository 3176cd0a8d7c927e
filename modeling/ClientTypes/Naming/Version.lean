import ClientTypes.Text.Piece

/-!
Versions of three components.
-/

namespace ClientTypes.Naming

open ClientTypes.Text

/-- The components of a version that are not empty. -/
def versionComponents (version : String) : List String :=
  (split '.' version).filter (· ≠ "")

/-- Fill a version up to three components. What is missing comes from the same place of the package
version, or is `0` when that has no such place; a longer version is kept. -/
def fillVersion (version packageVersion : String) : String :=
  let given := versionComponents version
  let fill := versionComponents packageVersion
  let missing := (List.range 3).drop given.length
  ".".intercalate (given ++ missing.map fun place => (fill[place]?).getD "0")

end ClientTypes.Naming
