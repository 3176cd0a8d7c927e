import ClientTypes.Yaml.Number
import ClientTypes.Yaml.Calendar

/-!
The tree of a YAML text, and the value it stands for.

A node is what is written: a plain scalar is still its text, keys may be any node, and a node with a name
may be repeated by its name. What a plain scalar means is decided by its form alone. A mapping of nodes
becomes a mapping of values when its keys are scalars; a key that is written twice keeps its first place
and takes its last value. A name may be repeated inside its own node, and then the value has no end; it is
unfolded as far as any use of it can reach.

Of several nodes without a value the one that is least deep decides what is wrong with the text, and of
these the first. A node that is repeated counts at each of its places.
-/

namespace ClientTypes.Yaml

open Decimal

inductive Node where
  /-- A scalar without quotes, whose form decides what it means. -/
  | plain (text : String)
  /-- A scalar that is a text whatever its form. -/
  | text (s : String)
  | list (items : List Node)
  | map (entries : List (Node × Node))
  /-- A node with a name of its own. -/
  | named (name : String) (node : Node)
  /-- The node of a name, once more. -/
  | again (name : String)
deriving Repr

/-- Nothing is written. -/
def Node.empty : Node := .plain ""

def truthWords : List (String × Bool) :=
  [("yes", true), ("Yes", true), ("YES", true), ("true", true), ("True", true), ("TRUE", true),
   ("on", true), ("On", true), ("ON", true),
   ("no", false), ("No", false), ("NO", false), ("false", false), ("False", false),
   ("FALSE", false), ("off", false), ("Off", false), ("OFF", false)]

/-- The words for null. The empty scalar is one of them. -/
def nullWords : List String := ["", "~", "null", "Null", "NULL"]

/-- The plain scalars that stand for no value of their own. -/
def reservedWords : List String := ["<<", "="]

def resolvePlain (s : String) : Except Fault Scalar :=
  let cs := s.toList
  if nullWords.contains s then .ok .null
  else match truthWords.lookup s with
    | some b => .ok (.bool b)
    | none => match integer? cs, float? cs, calendar? cs with
      | some n, _, _ => (n.map .int).mapError .badScalar
      | none, some x, _ => (x.map .float).mapError .badScalar
      | none, none, some day => day.mapError .badScalar
      | none, none, none =>
        if reservedWords.contains s then .error .malformed else .ok (.text s)

/-- What a plain scalar means as a key. -/
def resolveKey (s : String) : Except Fault Scalar :=
  if s = "=" then .ok (.text s) else resolvePlain s

/-! ### What is wrong with a tree -/

mutual
/-- The nodes with a name in a tree, by their names. -/
def Node.names : Node → List (String × Node)
  | .plain _ | .text _ | .again _ => []
  | .list items => namesOfItems items
  | .map entries => namesOfEntries entries
  | .named name node => (name, node) :: node.names
def namesOfItems : List Node → List (String × Node)
  | [] => []
  | n :: rest => n.names ++ namesOfItems rest
def namesOfEntries : List (Node × Node) → List (String × Node)
  | [] => []
  | (k, v) :: rest => k.names ++ v.names ++ namesOfEntries rest
end

mutual
def Node.collectionCount : Node → Nat
  | .plain _ | .text _ | .again _ => 0
  | .list items => collectionCountOfItems items + 1
  | .map entries => collectionCountOfEntries entries + 1
  | .named _ node => node.collectionCount
def collectionCountOfItems : List Node → Nat
  | [] => 0
  | n :: rest => n.collectionCount + collectionCountOfItems rest
def collectionCountOfEntries : List (Node × Node) → Nat
  | [] => 0
  | (k, v) :: rest => k.collectionCount + v.collectionCount + collectionCountOfEntries rest
end

/-- A node without its name, and the name. -/
def Node.content (names : List (String × Node)) : Node → Option String × Node
  | .named name node => (some name, node)
  | .again name => (some name, (names.lookup name).getD .empty)
  | node => (none, node)

/-- The collections one level down, the last one first. -/
structure Level where
  /-- The names of collections that were met. -/
  met : List String := []
  /-- The names of equals signs that are texts, because they were met as keys. -/
  signs : List String := []
  collections : List Node := []

/-- Look at a node in a collection. A collection with a name is looked into once. -/
def Level.add (names : List (String × Node)) (level : Level) (node : Node) : Except Fault Level :=
  match node.content names with
  | (name, .plain s) =>
    if s = "=" && (name.map level.signs.contains).getD false then .ok level
    else (resolvePlain s).map fun _ => level
  | (_, .list items) => .ok (addCollection (node.content names).1 (.list items))
  | (_, .map entries) => .ok (addCollection (node.content names).1 (.map entries))
  | _ => .ok level
where
  addCollection (name : Option String) (collection : Node) : Level :=
    match name with
    | none => { level with collections := collection :: level.collections }
    | some name =>
      if level.met.contains name then level
      else { level with met := name :: level.met, collections := collection :: level.collections }

/-- Look at a key. -/
def checkKey (names : List (String × Node)) (key : Node) : Except Fault Unit :=
  match (key.content names).2 with
  | .plain s => (resolveKey s).map fun _ => ()
  | .text _ => .ok ()
  | _ => .error .malformed

def signsOf (names : List (String × Node)) (entries : List (Node × Node)) : List String :=
  entries.filterMap fun (key, _) =>
    match key.content names with
    | (name, .plain "=") => name
    | _ => none

/-- Look at everything in a collection. -/
def Level.addParts (names : List (String × Node)) (level : Level) : Node → Except Fault Level
  | .list items => items.foldlM (Level.add names) level
  | .map entries =>
    let level := { level with signs := signsOf names entries ++ level.signs }
    entries.foldlM (fun level (key, value) => do
      checkKey names key
      level.add names value) level
  | _ => .ok level

/-- Look at the collections of a level, and then at those inside them. -/
def checkLevels (names : List (String × Node)) :
    (fuel : Nat) → Level → Except Fault Unit
  | 0, _ => .ok ()
  | fuel + 1, level =>
    if level.collections.isEmpty then .ok ()
    else do
      let next ← level.collections.reverse.foldlM (Level.addParts names)
        { level with collections := [] }
      checkLevels names fuel next

/-- Find what is wrong with a tree. Every round but the last looks into a collection for the first time,
so there are at most as many rounds as collections, and one more. -/
def Node.check (node : Node) : Except Fault Unit := do
  let level ← Level.add node.names {} node
  checkLevels node.names (node.collectionCount + 1) level

/-! ### The value of a tree -/

abbrev Meanings := List (String × Value)

structure Building where
  /-- What the names that were met stand for. -/
  meanings : Meanings := []
  /-- How many collections were met. -/
  collections : Nat := 0
  /-- How often a collection stands inside itself. -/
  loops : Nat := 0

def Building.define (b : Building) (name : String) (v : Value) : Building :=
  { b with meanings := (name, v) :: b.meanings }

/-- Count a collection, and give it its number if it leads back to itself. -/
def Building.close (b : Building) (collection : Value) : Value × Building :=
  (if collection.hasLoop then .knot b.collections collection else collection,
    { b with collections := b.collections + 1 })

def Building.recall (b : Building) (name : String) : Value × Building :=
  match b.meanings.lookup name with
  | none => (.null, b)
  | some (.loop v) => (.loop v, { b with loops := b.loops + 1 })
  | some v => (v, b)

/-- The value of a scalar that has one. -/
def valueOrNull : Except Fault Scalar → Value
  | .ok s => .scalar s
  | .error _ => .null

def scalarOf : Value → Scalar
  | .scalar s => s
  | _ => .null

mutual
/-- The value of a node. Inside its own node a name stands for what it has in `around`, and for what is
left out if it has nothing there. -/
def Node.build (around : Meanings) (b : Building) : Node → Value × Building
  | .plain s => (valueOrNull (resolvePlain s), b)
  | .text s => (.text s, b)
  | .list items =>
    let (values, b) := buildItems around b items
    b.close (.list values)
  | .map entries =>
    let (entries, b) := buildEntries around b [] entries
    b.close (.map entries)
  | .named name (.plain "=") => (.text "=", b.define name (.text "="))
  | .named name node =>
    let (value, b) := node.build around (b.define name (.loop ((around.lookup name).getD .beyond)))
    (value, b.define name value)
  | .again name => b.recall name
def buildItems (around : Meanings) (b : Building) : List Node → List Value × Building
  | [] => ([], b)
  | n :: rest =>
    let (value, b) := n.build around b
    let (values, b) := buildItems around b rest
    (value :: values, b)
/-- The values of entries, written over those that were read before. -/
def buildEntries (around : Meanings) (b : Building) (read : List (Scalar × Value)) :
    List (Node × Node) → List (Scalar × Value) × Building
  | [] => (read, b)
  | (.plain "=", v) :: rest =>
    let (value, b) := v.build around b
    buildEntries around b (Scalar.putIn read (.text "=") value) rest
  | (k, v) :: rest =>
    let (key, b) := k.build around b
    let (value, b) := v.build around b
    buildEntries around b (Scalar.putIn read (scalarOf key) value) rest
end

/-- What the names of a tree stand for when collections inside themselves are unfolded in so many
rounds. -/
def Node.meanings (node : Node) : (rounds : Nat) → Meanings
  | 0 => []
  | rounds + 1 => (node.build (node.meanings rounds) {}).2.meanings

mutual
/-- The number of slashes in the scalar that has most of them. -/
def Node.mostSlashes : Node → Nat
  | .plain s | .text s => s.toList.count '/'
  | .again _ => 0
  | .list items => mostSlashesOfItems items
  | .map entries => mostSlashesOfEntries entries
  | .named _ node => node.mostSlashes
/-- The most slashes among items. -/
def mostSlashesOfItems : List Node → Nat
  | [] => 0
  | n :: rest => max n.mostSlashes (mostSlashesOfItems rest)
/-- The most slashes among entries. -/
def mostSlashesOfEntries : List (Node × Node) → Nat
  | [] => 0
  | (k, v) :: rest => max (max k.mostSlashes v.mostSlashes) (mostSlashesOfEntries rest)
end

/-- The value that a node stands for. A use of it that comes to an end passes a collection inside itself
once for every key of a path of keys, once in each of the ways to read a value, and once at each of the few
collections around what it reads; it is unfolded in enough rounds for all of that. -/
def Node.toValue (node : Node) : Except Fault Value := do
  node.check
  let (value, b) := node.build [] {}
  if b.loops = 0 then return value
  return (node.build (node.meanings (4 * (b.loops + 2) + node.mostSlashes)) {}).1

end ClientTypes.Yaml
