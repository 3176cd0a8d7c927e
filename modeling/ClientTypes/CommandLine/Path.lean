import ClientTypes.Table
import ClientTypes.Text.Piece

/-!
Paths of files, and what stands at them.

A path is written without empty components and without points, so that different spellings of one path
read the same in messages. Two points are kept, because what they mean depends on the files. Whether
something stands at a path is a question about its spelling: a slash or a point at the end asks for a
directory.
-/

namespace ClientTypes.CommandLine

/-- A path: where it starts from, and its components. -/
structure Path where
  /-- Empty for a path that starts from the present directory. -/
  root : String := ""
  components : List String := []
deriving DecidableEq, Repr

namespace Path

/-- The slashes in front of a text as a root: none, one, or two; more than two count as one. -/
def rootOf (s : String) : String :=
  match (s.toList.takeWhile (· == '/')).length with
  | 0 => ""
  | 2 => "//"
  | _ => "/"

def ofText (s : String) : Path where
  root := rootOf s
  components := (Text.split '/' s).filter fun part => part ≠ "" ∧ part ≠ "."

/-- Read a path as it is spelled. Every component counts, and an empty one is a point. -/
def ofSpelling (s : String) : Path where
  root := rootOf s
  components := (Text.split '/' (String.ofList (s.toList.dropWhile (· == '/')))).map fun part =>
    if part = "" then "." else part

/-- The text of a path. The present directory is a point. -/
def text (p : Path) : String :=
  match p.root ++ "/".intercalate p.components with
  | "" => "."
  | s => s

def parent (p : Path) : Path := { p with components := p.components.dropLast }

/-- The directories on the way to a path, the farthest one first, without its own. -/
def ancestors (p : Path) : List Path :=
  (List.range p.components.length).map fun n => { p with components := p.components.take n }

/-- Add a component to components that were resolved, the last one first. -/
def resolveStep (isRooted : Bool) (resolved : List String) (part : String) : List String :=
  if part = "." then resolved
  else if part ≠ ".." then part :: resolved
  else match resolved with
    | ".." :: _ => ".." :: resolved
    | _ :: rest => rest
    | [] => if isRooted then [] else [".."]

/-- The path without two points behind a component, where every directory on the way is one. -/
def resolved (p : Path) : Path :=
  { p with components := (p.components.foldl (resolveStep (p.root != "")) []).reverse }

/-- The components of a path below the present directory; nothing for a path that leads elsewhere. -/
def placeBelow? (p : Path) : Option (List String) :=
  let components := p.resolved.components
  if p.root = "" ∧ components.head? ≠ some ".." then some components else none

/-- The longest name of a file or directory, in bytes. -/
def longestName : Nat := 255

/-- A component of the path is too long to be a name. -/
def hasLongName (p : Path) : Bool := p.components.any fun part => longestName < part.utf8ByteSize

/-- The longest path, in bytes. -/
def longestPath : Nat := 4095

/-- The path is too long to be followed at all. -/
def isTooLong (p : Path) : Bool := longestPath < p.text.utf8ByteSize

/-- The path holds the null character, which ends a path. -/
def isImpossible (p : Path) : Bool := p.components.any fun part => part.toList.contains '\x00'

end Path

/-- What stands at a path. -/
inductive Entry where
  | missing
  | directory
  | file (content : ByteArray)

namespace Entry

/-- Something stands at the path. -/
def isThere : Entry → Bool
  | .missing => false
  | .directory | .file _ => true

/-- A directory stands at the path. -/
def isDirectory : Entry → Bool
  | .directory => true
  | .missing | .file _ => false

/-- A file stands at the path. -/
def isFile : Entry → Bool
  | .file _ => true
  | .missing | .directory => false

/-- The content of the file at the path. -/
def content? : Entry → Option ByteArray
  | .file content => some content
  | .missing | .directory => none

end Entry

/-- The files below one directory, by their components. -/
abbrev Files := Table (List String) ByteArray

namespace Files

def ofTexts (files : List (String × ByteArray)) : Files :=
  files.map fun (name, content) => ((Path.ofText name).components, content)

/-- What stands at components from the directory on. -/
def entryAt (files : Files) (place : List String) : Entry :=
  match files.get? place with
  | some content => .file content
  | none =>
    if place.isEmpty || files.any (fun e => place.isPrefixOf e.1) then .directory else .missing

/-- What stands outside of the files: directories above, and nothing else that is known. -/
def outside (rest : List String) : Entry :=
  if rest.all fun part => part = ".." ∨ part = "." then .directory else .missing

/-- Follow components from a directory. A point stays there, and two points lead back. -/
def follow (files : Files) : (place : List String) → List String → Entry
  | place, [] => files.entryAt place
  | place, part :: rest =>
    if (files.entryAt place).isDirectory then
      if part = "." then follow files place rest
      else if part ≠ ".." then follow files (place ++ [part]) rest
      else if place.isEmpty then outside rest
      else follow files place.dropLast rest
    else .missing

/-- What stands at a path. -/
def look (files : Files) (p : Path) : Entry :=
  if p.root = "" then files.follow [] p.components else outside p.components

end Files

end ClientTypes.CommandLine
