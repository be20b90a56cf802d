import PaperGraph.Files.Fault
import PaperGraph.Files.Path
import PaperGraph.Text.Measure

/-!
# Trees of files

A tree says what there is at every location: a directory, a file with its
content, or nothing. A location is told by names from the working directory,
from a directory above it, or from the root; paths are resolved to locations
name by name, as an operating system does it, and every directory on the way
has to be there.

* `Tree.get?`: what there is at a location;
* `Tree.locate`: the location that a path leads to;
* `Tree.read`, `Tree.write`, `Tree.makeDirectories`: the operations of a
  program, which answer with a fault or with the new tree;
* `Tree.below`, `Tree.childFiles`: the files in a directory.

## What is assumed

Such trees are simpler than those of an operating system. There are no symbolic
links in them, so that different names in a directory lead to different places.
Nothing is known of the name of the working directory or of where it lies: `x`,
`../w/x` and `/w/x` are told from three bases and are taken for three locations,
whatever the working directory is called. And names are texts: one whose bytes
are no text has no place in a tree. What is proved of trees holds of directories
that are as simple, and of paths that are told from one base.
-/

namespace PaperGraph

open Text

/-- What a file holds. -/
inductive Content where
  /-- A text. -/
  | text (text : String)
  /-- Bytes that are no text. -/
  | binary (bytes : Array UInt8)
deriving DecidableEq, Inhabited

/-- The content made of some bytes. -/
def Content.ofBytes (bytes : ByteArray) : Content :=
  match String.fromUTF8? bytes with
  | some decoded => .text decoded
  | none => .binary bytes.data

/-- What there is at a location. A link to another location is not an entry. -/
inductive Entry where
  /-- A directory. -/
  | directory
  /-- A file. -/
  | file (content : Content)
deriving DecidableEq, Inhabited

/-- Where a location is told from. Nothing is said of how the bases lie to each
    other, so that locations with different bases are different. -/
inductive Base where
  /-- From so many directories above the working directory. -/
  | working (above : Nat)
  /-- From the root. -/
  | root
deriving DecidableEq, Repr, Inhabited

/-- A place in a tree. -/
structure Location where
  /-- Where the names start. -/
  base : Base := .working 0
  /-- The names on the way. -/
  names : List String := []
deriving DecidableEq, Repr, Inhabited

namespace Location

/-- The directory that a location lies in; the root lies in itself. -/
def parent (l : Location) : Location :=
  match l.names, l.base with
  | [], .working above => { base := .working (above + 1) }
  | [], .root => l
  | _ :: _, _ => { l with names := l.names.dropLast }

/-- The location of that name in a directory. -/
def child (l : Location) (name : String) : Location :=
  { l with names := l.names ++ [name] }

/-- The location that a piece of a path leads to. -/
def step (l : Location) (piece : List Char) : Location :=
  if Path.isIdle piece then l
  else if piece = ['.', '.'] then l.parent
  else l.child (String.ofList piece)

/-- The names that lead from a directory to a location in it, at any depth. -/
def namesBelow? (l directory : Location) : Option (List String) :=
  if l.base = directory.base ∧ directory.names.isPrefixOf l.names then
    some (l.names.drop directory.names.length)
  else none

end Location

/-- What there is at every location. The directories that locations are told
    from are always there. -/
structure Tree where
  /-- What there is elsewhere. -/
  entries : List (Location × Entry) := []
deriving Inhabited

namespace Tree

/-- What there is at a location. -/
def get? (t : Tree) (l : Location) : Option Entry :=
  if l.names = [] then some .directory else t.entries.lookup l

/-- The tree with `entry` at a location, in place of what was there. -/
def set (t : Tree) (l : Location) (entry : Entry) : Tree where
  entries := go t.entries
where
  /-- The entries with the new one. -/
  go : List (Location × Entry) → List (Location × Entry)
    | [] => [(l, entry)]
    | (k, e) :: rest => if k = l then (l, entry) :: rest else (k, e) :: go rest

/-- The tree without a location and all that lies below it. -/
def erase (t : Tree) (l : Location) : Tree where
  entries := t.entries.filter fun (k, _) => (k.namesBelow? l).isNone

/-- Longer names are refused, in bytes. -/
def longestName : Nat := 255

/-- Longer paths are refused, in bytes. -/
def longestPath : Nat := 4095

/-- Where a path starts and the pieces between its separators. -/
def pieces (p : Path) : Except FileFault (Location × List (List Char)) :=
  let text := p.text.toList
  if text = [] then .error .notFound
  else if '\x00' ∈ text then .error .nul
  else if longestPath < utf8Size text then .error .nameTooLong
  else .ok ({ base := if p.isAbsolute then .root else .working 0 }, splitAt '/' text)

/-- Refuses a location that is no directory. -/
def needDirectory (t : Tree) (l : Location) : Except FileFault Unit :=
  match t.get? l with
  | some .directory => .ok ()
  | some (.file _) => .error .notDirectory
  | none => .error .notFound

/-- The location that pieces of a path lead to. There has to be a directory
    before each of them. -/
def walk (t : Tree) (l : Location) : List (List Char) → Except FileFault Location
  | [] => .ok l
  | piece :: rest => do
    t.needDirectory l
    if longestName < utf8Size piece then .error .nameTooLong
    walk t (l.step piece) rest

/-- The location that a path leads to, at which there may be nothing. -/
def locate (t : Tree) (p : Path) : Except FileFault Location := do
  let (start, steps) ← pieces p
  t.walk start steps

/-- What there is where a path leads to. -/
def stat (t : Tree) (p : Path) : Except FileFault Entry := do
  match t.get? (← t.locate p) with
  | some entry => .ok entry
  | none => .error .notFound

/-- Whether a path leads to something. -/
def has (t : Tree) (p : Path) : Bool :=
  match t.stat p with
  | .ok _ => true
  | .error _ => false

/-- Whether a path leads to a directory. -/
def hasDirectory (t : Tree) (p : Path) : Bool :=
  match t.stat p with
  | .ok .directory => true
  | _ => false

/-- The text of the file that a path leads to. -/
def read (t : Tree) (p : Path) : Except FileFault String := do
  match ← t.stat p with
  | .directory => .error .isDirectory
  | .file (.text text) => .ok text
  | .file (.binary _) => .error .notText

/-- Where a path wants something to be made: a directory that is there, the
    last piece of the path, and whether separators follow that piece. -/
structure Target where
  /-- The directory. -/
  directory : Location
  /-- The last piece. -/
  piece : List Char
  /-- Whether separators follow. -/
  trailing : Bool
deriving DecidableEq, Repr

/-- The location of the name to be made, unless the piece is no name. -/
def Target.location? (target : Target) : Option Location :=
  if Path.isIdle target.piece ∨ target.piece = ['.', '.'] then none
  else some (target.directory.step target.piece)

/-- Where a path wants something to be made. -/
def target (t : Tree) (p : Path) : Except FileFault Target := do
  let (start, steps) ← pieces p
  match steps.reverse.dropWhile (· = []) with
  | [] => .ok ⟨start, [], true⟩
  | last :: before =>
    let directory ← t.walk start before.reverse
    t.needDirectory directory
    if longestName < utf8Size last then .error .nameTooLong
    .ok ⟨directory, last, steps.getLast? = some []⟩

/-- The tree with a file of that content where a path leads to. -/
def write (t : Tree) (p : Path) (content : Content) : Except FileFault Tree := do
  let target ← t.target p
  match target.location? with
  | none => .error .isDirectory
  | some l =>
    if target.trailing ∨ t.get? l = some .directory then .error .isDirectory
    else .ok (t.set l (.file content))

/-- The tree with a new directory where a path leads to. -/
def makeDirectory (t : Tree) (p : Path) : Except FileFault Tree := do
  let target ← t.target p
  match target.location? with
  | none => .error .exists
  | some l => if (t.get? l).isSome then .error .exists else .ok (t.set l .directory)

/-- The tree with a directory where a path leads to and with the directories
    that it lies in. `depth` bounds the number of these. -/
def makeDirectoriesWithin (t : Tree) (p : Path) : (depth : Nat) → Except FileFault Tree
  | 0 => .ok t
  | depth + 1 =>
    if p.text = "" then .ok t
    else match t.makeDirectory p with
      | .ok t => .ok t
      | .error .notFound =>
        match p.parent? with
        | none => .error .noTree
        | some parent => do
          let t ← makeDirectoriesWithin t parent depth
          t.makeDirectory p |> keep t
      | .error fault => keep t (.error fault)
where
  /-- Puts up with a fault if the directory is there. -/
  keep (t : Tree) : Except FileFault Tree → Except FileFault Tree
    | .ok made => .ok made
    | .error fault => if t.hasDirectory p then .ok t else .error fault

/-- The tree with a directory where a path leads to and with the directories
    that it lies in. A path has fewer components than characters. -/
def makeDirectories (t : Tree) (p : Path) : Except FileFault Tree :=
  t.makeDirectoriesWithin p (p.text.length + 1)

/-- The names that lead from a directory to the files in it, at any depth. -/
def below (t : Tree) (directory : Location) : List (List String) :=
  t.entries.filterMap fun (l, entry) =>
    match entry with
    | .directory => none
    | .file _ => l.namesBelow? directory

/-- The names of the files right in a directory. -/
def childFiles (t : Tree) (directory : Location) : List String :=
  (t.below directory).filterMap fun
    | [name] => some name
    | _ => none

end Tree

end PaperGraph
