import ClientTypes.Naming.Words
import ClientTypes.Text.Uppercase
import ClientTypes.Table

/-!
Friendly names for placeholders.

An operation may name the schema of its body or response. The name is kept beside the numbered name
of the schema, both in camel case, until models are renamed. After that the table is closed.
-/

namespace ClientTypes

open Naming

/-- Friendly names by placeholder, in order of registration. -/
structure Hints where
  names : Table String String := []
  /-- Nothing is registered any more. -/
  frozen : Bool := false
deriving DecidableEq, Repr

namespace Hints

/-- Register a friendly name. The first name of a placeholder stays, and a frozen table stays as it
is. -/
def register (h : Hints) (placeholder friendly : String) : Hints :=
  if h.frozen then h
  else { h with names := h.names.putNew (camelize placeholder) (camelize friendly) }

def freeze (h : Hints) : Hints := { h with frozen := true }

def get? (h : Hints) (placeholder : String) : Option String := h.names.get? (camelize placeholder)

def has (h : Hints) (placeholder : String) : Bool := h.names.has (camelize placeholder)

def size (h : Hints) : Nat := h.names.length

/-- What follows a key in a classname that goes on with a new word: the rest is not empty and begins
with an upper case character. -/
def wordsAfter? (key classname : String) : Option String :=
  (Text.dropFront? key classname).filter fun rest =>
    (rest.toList.head?.map Text.isUpperOfScript).getD false

/-- The longest key that a classname goes on from with a new word, with its friendly name. Among
keys of one length the first would win. -/
def longestFront? (h : Hints) (classname : String) : Option (String × String) :=
  h.names.foldl (fun best entry =>
    if (wordsAfter? entry.1 classname).isSome then
      match best with
      | some b => if b.1.length < entry.1.length then some entry else best
      | none => some entry
    else best) none

end Hints

end ClientTypes
