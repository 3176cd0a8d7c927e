/-!
Tables that keep the order in which keys were first written.

Schemas, properties, hints and renames are all looked up by key and listed in order, so they share
this one representation: a list of pairs. Writing a key that is already there changes its value
and keeps its place.
-/

namespace ClientTypes

/-- Pairs of a key and a value in order of first writing. Look-up takes the first pair of a key;
`put` never makes a second one. -/
abbrev Table (κ α : Type) := List (κ × α)

namespace Table

variable {κ α β : Type} [DecidableEq κ]

def get? : Table κ α → κ → Option α
  | [], _ => none
  | (k, v) :: rest, key => if k = key then some v else get? rest key

def has (t : Table κ α) (key : κ) : Bool := (t.get? key).isSome

/-- Write a value under a key: in place when the key is there, at the end otherwise. -/
def put : Table κ α → κ → α → Table κ α
  | [], key, value => [(key, value)]
  | (k, v) :: rest, key, value =>
    if k = key then (k, value) :: rest else (k, v) :: put rest key value

/-- Write a value under a key that has none; a key that is there keeps its value. -/
def putNew (t : Table κ α) (key : κ) (value : α) : Table κ α :=
  if t.has key then t else t ++ [(key, value)]

def keys (t : Table κ α) : List κ := t.map Prod.fst

def values (t : Table κ α) : List α := t.map Prod.snd

end Table

end ClientTypes
