import ClientTypes.Document.Fault
import ClientTypes.Schema.Conversion
import ClientTypes.Text.Piece

/-!
References to shared components of a document.

A local reference is a path of keys from the root of the document, each key escaped so that slashes
inside it do not cut the path. Following a reference replaces it by its target; the target may be a
reference again. The entries of the reference whose keys begin with `x-` are laid over the target.
-/

namespace ClientTypes.Document

open Text

/-- Read an escaped key: `~1` is a slash, and what is left of `~0` is a tilde. -/
def unescapeKey (key : List Char) : List Char :=
  replaceFrom ['~', '0'] ['~'] 0 (replaceFrom ['~', '1'] ['/'] 0 key)

/-- Escape a key for a path: tildes first, so that the tilde of a slash is not escaped again. -/
def escapeKey (key : List Char) : List Char :=
  key.flatMap fun c => if c = '~' then ['~', '0'] else if c = '/' then ['~', '1'] else [c]

/-- The keys of a local reference; `none` when it does not begin at the root of the document. -/
def keysOfReference? (reference : String) : Option (List String) :=
  (after? ['#', '/'] reference.toList).map fun path =>
    (pieces '/' path).map fun key => String.ofList (unescapeKey key)

def referenceTo (keys : List String) : String :=
  String.ofList ('#' :: '/' :: ['/'].intercalate (keys.map fun key => escapeKey key.toList))

/-- The value at the end of a path of keys; `none` when a key is missing or stands in front of
something that is no mapping. -/
def lookUp? (v : Value) : List String → Option Value
  | [] => some v
  | key :: rest => match v.opened with
    | .map entries => (field? entries key).bind (lookUp? · rest)
    | _ => none

/-- Lay extensions over the entries of a target, which gives a mapping of its own. A value that is no
mapping takes none. -/
def withExtensions (extensions : Table String Value) (target : Value) : Value :=
  match target.opened with
  | .map entries =>
    .map (extensions.foldl (fun acc (k, v) => Scalar.putIn acc (.text k) v) entries)
  | _ => target

mutual
/-- The number of entries with the key of a reference, anywhere in a value. What stands in it once more
is counted once. -/
def referenceCount : Value → Nat
  | .scalar _ | .loop _ | .beyond => 0
  | .knot _ v => referenceCount v
  | .list items => referenceCountOfItems items
  | .map entries => referenceCountOfEntries entries
def referenceCountOfItems : List Value → Nat
  | [] => 0
  | v :: rest => referenceCount v + referenceCountOfItems rest
def referenceCountOfEntries : List (Scalar × Value) → Nat
  | [] => 0
  | (k, v) :: rest =>
    (if k = .text "$ref" then 1 else 0) + referenceCount v + referenceCountOfEntries rest
end

/-- Follow references while there are any. Each step meets a reference that was not `seen` before,
so a fuel beyond the number of references in the document does not run out. -/
def followFrom (doc : Value) (fuel : Nat) (seen : List String) (v : Value) :
    Except DocumentFault Value :=
  match v.opened with
  | .map entries =>
    match field? entries "$ref" with
    | none => .ok v
    | some (.text reference) =>
      match fuel, keysOfReference? reference with
      | fuel + 1, some keys =>
        if seen.contains reference then .error (.danglingReference reference)
        else match lookUp? doc keys with
          | none => .error (.danglingReference reference)
          | some target => do
            let extensions ← extensionsOf entries
            followFrom doc fuel (reference :: seen) (withExtensions extensions target)
      | _, _ => .error (.danglingReference reference)
    | some _ => .error .noMembers
  | _ => .ok v

/-- Replace a reference to a shared component by what it leads to. A value that is no reference
stays as it is. -/
def follow (doc v : Value) : Except DocumentFault Value :=
  followFrom doc (referenceCount doc + 2) [] v

end ClientTypes.Document
