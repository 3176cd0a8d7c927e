import ClientTypes.Calendar
import ClientTypes.Decimal.Shortest
import ClientTypes.Table

/-!
Trees of data, as they are read from a description before anything is known about their meaning.

A leaf is a scalar. Integers have no bounds and are distinct from floating point numbers. A mapping
keeps the order of its keys, and its keys are scalars of any kind; only the text format with
quoted keys limits them to texts.

A collection may stand inside itself, and then the tree has no end. It is kept as far as a reader
can have a use for it: where a collection stands once more, it follows unfolded, and inside it again,
until what lies farther is left out. A collection on the way back to itself has a number, so that it is
known when it is met again. `Value.opened` sees the collection itself behind all of this.
-/

namespace ClientTypes

open Decimal

inductive Scalar where
  | null
  | bool (b : Bool)
  | int (n : Int)
  | float (x : Binary64)
  | text (s : String)
  | date (d : Date)
  | moment (d : Date) (c : Clock)
deriving DecidableEq, Repr

/-- A tree of data: a scalar, a list, or a mapping from scalars in order of writing. -/
inductive Value where
  | scalar (s : Scalar)
  | list (items : List Value)
  | map (entries : List (Scalar × Value))
  /-- A collection that leads back to itself, or to a collection that does, with its number. -/
  | knot (number : Nat) (collection : Value)
  /-- A collection around this place, once more. -/
  | loop (collection : Value)
  /-- What is left out of a tree without end. -/
  | beyond
deriving Repr

instance : Inhabited Value := ⟨.scalar .null⟩

namespace Value

@[match_pattern] abbrev null : Value := .scalar .null
@[match_pattern] abbrev bool (b : Bool) : Value := .scalar (.bool b)
@[match_pattern] abbrev int (n : Int) : Value := .scalar (.int n)
@[match_pattern] abbrev float (x : Binary64) : Value := .scalar (.float x)
@[match_pattern] abbrev text (s : String) : Value := .scalar (.text s)
@[match_pattern] abbrev date (d : Date) : Value := .scalar (.date d)

/-- A mapping with texts as keys. -/
def record (fields : List (String × Value)) : Value :=
  .map (fields.map fun field => (.text field.1, field.2))

/-- A text or nothing. -/
def optionalText : Option String → Value
  | none => .null
  | some s => .text s

def texts (items : List String) : Value := .list (items.map .text)

/-- The scalar or the collection that a value is, without a number and without regard to whether it stands
here for the first time. -/
def opened : Value → Value
  | .knot _ v => v.opened
  | .loop v => v.opened
  | v => v

/-- The value counts as given: it is not null, false, zero, or empty. -/
def isGiven : Value → Bool
  | .null => false
  | .bool b => b
  | .int n => n != 0
  | .float x => !x.isZero
  | .text s => s != ""
  | .date _ | .scalar (.moment _ _) | .beyond => true
  | .knot _ v | .loop v => v.isGiven
  | .list items => !items.isEmpty
  | .map entries => !entries.isEmpty

mutual
/-- Some collection stands inside itself. -/
def hasLoop : Value → Bool
  | .scalar _ => false
  | .loop _ | .beyond => true
  | .knot _ v => v.hasLoop
  | .list items => hasLoopInItems items
  | .map entries => hasLoopInEntries entries
/-- Some collection stands inside itself among the items of a list. -/
def hasLoopInItems : List Value → Bool
  | [] => false
  | v :: rest => v.hasLoop || hasLoopInItems rest
/-- Some collection stands inside itself among the entries of a mapping. -/
def hasLoopInEntries : List (Scalar × Value) → Bool
  | [] => false
  | (_, v) :: rest => v.hasLoop || hasLoopInEntries rest
end

end Value

/-- A scalar as the integer it is equal to, if there is one: a truth value counts as zero or one,
a floating point number as the integer it equals. -/
def Scalar.asInt? : Scalar → Option Int
  | .bool b => some (if b then 1 else 0)
  | .int n => some n
  | .float x => x.toInt?
  | _ => none

/-- The point in time that a scalar is, if it is one. -/
def Scalar.instant? : Scalar → Option Int
  | .moment d c => c.instant? d
  | _ => none

/-- Two scalars are one key of a mapping: they are equal, or equal as integers, or the same point in
time. -/
def Scalar.sameKey (a b : Scalar) : Bool :=
  a == b || (a.asInt?.isSome && a.asInt? == b.asInt?) ||
    (a.instant?.isSome && a.instant? == b.instant?)

/-- Write a value under a key of a mapping: in place when the key is there, at the end otherwise.
A key that is there keeps its first spelling. -/
def Scalar.putIn (entries : List (Scalar × Value)) (key : Scalar) (value : Value) :
    List (Scalar × Value) :=
  match entries with
  | [] => [(key, value)]
  | (k, v) :: rest =>
    if k.sameKey key then (k, value) :: rest else (k, v) :: putIn rest key value

end ClientTypes
