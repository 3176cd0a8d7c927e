import ClientTypes.Yaml.Plain
import ClientTypes.Yaml.Quoted
import ClientTypes.Yaml.Block
import ClientTypes.Yaml.Directive
import ClientTypes.Yaml.Node

/-!
YAML text as a value.

The reader takes a single document: collections by indentation and in brackets, plain, quoted and block
scalars, comments, directives, names of nodes. Tags of nodes, keys after a question mark and the merging
of mappings are not taken.

A node by indentation reads on to the next token, so that the collection around it sees at once in
which column that token stands: in its own column it goes on, left of it it ends, and right of it
the text is broken. A part of such a collection begins at the first token of a line, or right behind a
hyphen; whether the next token is such a place is known at every time.
-/

namespace ClientTypes.Yaml

structure Extent where
  cursor : Cursor
  /-- The names that nodes have. -/
  names : List String := []
  /-- A key or a hyphen may stand at the next token. -/
  fresh : Bool := true

abbrev Read (α : Type) := StateT Extent (Except Fault) α

def moveTo (c : Cursor) : Read Unit := modify fun p => { p with cursor := c }

def here : Read Cursor := do return (← get).cursor

/-- A key or a hyphen may stand at the next token. -/
def isFresh : Read Bool := do return (← get).fresh

/-- Say whether a key or a hyphen may stand at the next token. -/
def setFresh (fresh : Bool) : Read Unit := modify fun p => { p with fresh }

/-- Go to the next token, and tell its place. The end of a line makes it a fresh one. -/
def nextToken : Read Cursor := do
  let c ← here
  let next := c.toToken
  moveTo next
  if next.line ≠ c.line then setFresh true
  return next

/-- Go over one character. -/
def stepOver : Read Unit := do moveTo (← here).step

/-- Refuse the token at the present place. A quoted scalar is read first, so that what is wrong inside it
counts before its place. -/
def refuse {α : Type} : Read α := do
  let c ← here
  if c.rest.head? = some '"' then
    let _ ← liftM (quotedText c)
  throw .malformed

def scan {α : Type} (read : Cursor → Except Fault (α × Cursor)) : Read α := do
  let (a, c) ← liftM (read (← here))
  moveTo c
  setFresh false
  return a

/-! ### Names of nodes -/

/-- Read a name after its mark. -/
def readName : Read String := do
  stepOver
  let c ← here
  let name := c.rest.takeWhile isNameChar
  let after := c.advance name.length
  if name.isEmpty || !endsName after.rest then throw .malformed
  moveTo after
  setFresh false
  return String.ofList name

/-- Give a name to the node that comes next, and go to its token. No two nodes have the same name. -/
def openName : Read String := do
  let name ← readName
  let _ ← nextToken
  let p ← get
  if p.names.contains name then refuse
  set { p with names := name :: p.names }
  return name

/-- Read the name of a node that stands for the node once more. Where a key may stand, the token behind a
name that no node has is looked at before the name is refused. -/
def readAgain : Read Node := do
  let mark ← here
  let fresh ← isFresh
  let name ← readName
  if (← get).names.contains name then return .again name
  if fresh && (← nextToken).line == mark.line then refuse
  throw .malformed

def readBracket : Read Unit := do
  stepOver
  setFresh false

/-! ### Nodes in brackets and within a line -/

mutual
/-- A node that begins on this line: a node once more, a scalar, or a collection in brackets. -/
def readInline : (fuel : Nat) → Context → Read Node
  | 0, _ => throw .malformed
  | fuel + 1, context => do
    let c ← here
    if c.atBoundary then refuse
    match c.rest with
    | '*' :: _ => readAgain
    | '"' :: _ => .text <$> scan quotedText
    | '\x27' :: _ => .text <$> scan quotedText
    | '[' :: _ => do
      stepOver
      readListItems fuel []
    | '\x7b' :: _ => do
      stepOver
      readMapEntries fuel []
    | s =>
      if beginsPlain context.isBracketed s then .plain <$> scan fun c => .ok (plainText context c)
      else refuse
/-- A node inside brackets. A name alone names an empty node. -/
def readBracketed : (fuel : Nat) → Read Node
  | 0 => throw .malformed
  | fuel + 1 => do
    let c ← nextToken
    match c.rest with
    | '&' :: _ => do
      let name ← openName
      match (← here).rest with
      | ',' :: _ => return .named name .empty
      | ':' :: _ => return .named name .empty
      | ']' :: _ => return .named name .empty
      | '\x7d' :: _ => return .named name .empty
      | '*' :: _ => refuse
      | _ => return .named name (← readInline fuel .bracketed)
    | _ => readInline fuel .bracketed
/-- A value after a colon inside brackets. It may be left out. -/
def readBracketedValue : (fuel : Nat) → Read Node
  | 0 => throw .malformed
  | fuel + 1 => do
    let c ← nextToken
    match c.rest with
    | ',' :: _ => return .empty
    | ']' :: _ => return .empty
    | '\x7d' :: _ => return .empty
    | _ => readBracketed fuel
/-- A key inside brackets and its value, if a colon follows. -/
def readPair : (fuel : Nat) → Read (Node × Option Node)
  | 0 => throw .malformed
  | fuel + 1 => do
    let start ← nextToken
    let key ← readBracketed fuel
    let c ← nextToken
    match c.rest with
    | ':' :: _ => do
      if !start.isKeyUpTo c then refuse
      stepOver
      return (key, some (← readBracketedValue fuel))
    | _ => return (key, none)
/-- The items of a list in brackets after those that were read. A pair is a mapping of its own. -/
def readListItems : (fuel : Nat) → (read : List Node) → Read Node
  | 0, _ => throw .malformed
  | fuel + 1, read => do
    let c ← nextToken
    if c.rest.head? = some ']' then
      readBracket
      return .list read.reverse
    let item ← match ← readPair fuel with
      | (node, none) => pure node
      | (key, some value) => pure (.map [(key, value)])
    match (← nextToken).rest with
    | ',' :: _ => do
      stepOver
      readListItems fuel (item :: read)
    | ']' :: _ => do
      readBracket
      return .list (item :: read).reverse
    | _ => refuse
/-- The entries of a mapping in brackets after those that were read. A key alone has an empty value. -/
def readMapEntries : (fuel : Nat) → (read : List (Node × Node)) → Read Node
  | 0, _ => throw .malformed
  | fuel + 1, read => do
    let c ← nextToken
    if c.rest.head? = some '\x7d' then
      readBracket
      return .map read.reverse
    let (key, value) ← readPair fuel
    let read := (key, value.getD .empty) :: read
    match (← nextToken).rest with
    | ',' :: _ => do
      stepOver
      readMapEntries fuel read
    | '\x7d' :: _ => do
      readBracket
      return .map read.reverse
    | _ => refuse
end

/-! ### Nodes by indentation -/

structure Place where
  /-- The column of the collection around it. -/
  parent : Option Nat := none
  /-- The node is the value of a key, so that it may be a list in the column of the key. -/
  ofKey : Bool := false

/-- The column belongs to a node at this place. -/
def Place.admits (p : Place) (column : Nat) : Bool := (Context.indented p.parent).admits column

def Cursor.atBlock (c : Cursor) : Bool := c.rest.head? == some '|' || c.rest.head? == some '>'

/-- A block scalar, up to the next token. -/
def readBlock (place : Place) : Read Node := do
  let text ← scan fun c => orMalformed (blockText place.parent c)
  setFresh true
  let _ ← nextToken
  return .text text

mutual
/-- A node at a token. If it has a name in an earlier line, it may have none here, and may not be a node
once more; but a key that it begins with may. -/
def readNode : (fuel : Nat) → Place → (hasName : Bool) → Read Node
  | 0, _, _ => throw .malformed
  | fuel + 1, place, hasName => do
    let c ← here
    let fresh ← isFresh
    if c.atMark '-' then
      if fresh then readItems fuel c.column false [] else refuse
    else if c.atBlock then readBlock place
    else match c.rest with
      | '&' :: _ => readNamed fuel place hasName
      | '*' :: _ => do readFrom fuel fresh (!hasName) c (← readAgain)
      | _ => do readFrom fuel fresh true c (← readInline fuel (.indented place.parent))
/-- A node at the mark of its name. On the line of the name the name belongs to a key if what follows is
one. -/
def readNamed : (fuel : Nat) → Place → (hasName : Bool) → Read Node
  | 0, _, _ => throw .malformed
  | fuel + 1, place, hasName => do
    let start ← here
    let fresh ← isFresh
    let name ← openName
    let c ← here
    if c.line = start.line && !c.atEnd then
      if c.atBlock then
        if hasName then refuse
        return .named name (← readBlock place)
      else
        readFrom fuel fresh (!hasName) start (.named name (← readKeyContent fuel place.parent))
    else if hasName then refuse
    else return .named name (← readBelow fuel place true)
/-- The content of a node on the line of its name, which may be a key without content. -/
def readKeyContent : (fuel : Nat) → (parent : Option Nat) → Read Node
  | 0, _ => throw .malformed
  | fuel + 1, parent => do
    let c ← here
    if c.atMark ':' then return .empty
    else if c.rest.head? = some '*' then refuse
    else readInline fuel (.indented parent)
/-- The node that begins with another one: a mapping if a colon follows, and otherwise itself, if it may
stand alone. -/
def readFrom : (fuel : Nat) → (fresh alone : Bool) → (start : Cursor) → (first : Node) → Read Node
  | 0, _, _, _, _ => throw .malformed
  | fuel + 1, fresh, alone, start, first => do
    let c ← nextToken
    if c.atMark ':' then
      if fresh && start.isKeyUpTo c then readEntries fuel start.column first [] else refuse
    else if alone then return first
    else refuse
/-- A node that begins on a later line. It is empty if that line does not belong to it. In the column of
the collection around it, it may only be a block scalar, or a list if it is the value of a key. -/
def readBelow : (fuel : Nat) → Place → (hasName : Bool) → Read Node
  | 0, _, _ => throw .malformed
  | fuel + 1, place, hasName => do
    let c ← here
    if c.atEnd then return .empty
    else if place.admits c.column then readNode fuel place hasName
    else if place.parent != some c.column then return .empty
    else if place.ofKey && c.atMark '-' then readItems fuel c.column true []
    else if c.atBlock then readBlock place
    else return .empty
/-- A node after a mark. On the line of the mark it is `fresh` or not; later lines always are. -/
def readAfterMark : (fuel : Nat) → Place → (fresh : Bool) → Read Node
  | 0, _, _ => throw .malformed
  | fuel + 1, place, fresh => do
    let mark ← here
    stepOver
    setFresh fresh
    let c ← nextToken
    if c.line == mark.line && !c.atEnd then readNode fuel place false else readBelow fuel place false
/-- The items of a list from a hyphen on, after those that were read. A list in the column of its key
ends where the next key begins. -/
def readItems : (fuel : Nat) → (column : Nat) → (inKeyColumn : Bool) → (read : List Node) → Read Node
  | 0, _, _, _ => throw .malformed
  | fuel + 1, column, inKeyColumn, read => do
    let item ← readAfterMark fuel { parent := some column } true
    let c ← here
    if c.atEnd || c.column < column then return .list (item :: read).reverse
    else if c.column != column || !(← isFresh) then refuse
    else if c.atMark '-' then readItems fuel column inKeyColumn (item :: read)
    else if inKeyColumn then return .list (item :: read).reverse
    else refuse
/-- The entries of a mapping from a colon on: the key in front of it, and those that were read. -/
def readEntries : (fuel : Nat) → (column : Nat) → (key : Node) → (read : List (Node × Node)) →
    Read Node
  | 0, _, _, _ => throw .malformed
  | fuel + 1, column, key, read => do
    let value ← readAfterMark fuel { parent := some column, ofKey := true } false
    let read := (key, value) :: read
    let c ← here
    if c.atEnd || c.column < column then return .map read.reverse
    else if c.column != column || !(← isFresh) then refuse
    else
      let key ← readKey fuel column
      readEntries fuel column key read
/-- A key, up to its colon. -/
def readKey : (fuel : Nat) → (column : Nat) → Read Node
  | 0, _ => throw .malformed
  | fuel + 1, column => do
    let start ← here
    let key ← match start.rest with
      | '&' :: _ => do
        let name ← openName
        pure (.named name (← readKeyContent fuel (some column)))
      | _ => readInline fuel (.indented (some column))
    let c ← nextToken
    if c.line ≠ start.line then throw .malformed
    if c.atMark ':' && start.isKeyUpTo c then return key else refuse
end

/-! ### Documents -/

/-- Read directives, each up to the next token, and tell whether there were any. -/
def readDirectives : (fuel : Nat) → Directives → Read Bool
  | 0, _ => throw .malformed
  | fuel + 1, before => do
    let c ← here
    if c.column == 0 && c.rest.head? == some '%' then
      let (directive, after) ← liftM (readDirective c)
      moveTo after
      let _ ← nextToken
      let _ ← readDirectives fuel (← liftM (before.add directive))
      return true
    else return false

/-- Nothing follows but marks for the end of the document. -/
def readDocumentEnd : (fuel : Nat) → Read Unit
  | 0 => throw .malformed
  | fuel + 1 => do
    let c ← here
    if c.rest.isEmpty then return
    else if c.atMarker '.' then
      moveTo (c.advance 3)
      let _ ← nextToken
      readDocumentEnd fuel
    else refuse

/-- Read the one document of a text. -/
def readDocument (fuel : Nat) : Read Node := do
  let _ ← nextToken
  let directed ← readDirectives fuel {}
  let c ← here
  let node ←
    if c.atMarker '-' then do
      moveTo (c.advance 2)
      readAfterMark fuel {} false
    else if directed || c.atMarker '.' then refuse
    else readBelow fuel {} false
  readDocumentEnd fuel
  return node

/-- The node of a text. Every character takes part in at most a few steps, so the fuel does not run
out. -/
def readText (text : String) : Except Fault Node :=
  let s := text.toList
  if s.all isAllowed then
    ((readDocument (8 * s.length + 16)).run { cursor := .ofText s }).map (·.1)
  else .error .malformed

/-- Read a whole text as one value. A text without a node is null. -/
def parse (text : String) : Except Fault Value := do
  (← readText text).toValue

end ClientTypes.Yaml
