import PaperGraph.Text.Search

/-!
# Paths

A path is kept as it was written. What it means is told by its components: a
start at the root or at the current directory, steps to the parent directory,
and names. Repeated separators, single dots within the path and a separator at
the end say nothing (`Path.components`); yet they stay in the text when a path
is extended or cut.

* `Path.join`, `Path.parent?`, `Path.fileName?`, `Path.withFileName`: building
  and cutting;
* `Path.relativeTo?`: the part of a path below another one;
* `Path.order`: the order by components, which is that of the lists of sources.
-/

namespace PaperGraph

open Text

/-- A path, as it was written. -/
structure Path where
  /-- The path as a text. -/
  text : String
deriving DecidableEq, Repr, Inhabited

namespace Path

/-- A part of a path that says something. -/
inductive Component where
  /-- The root of all directories, at the start. -/
  | root
  /-- The current directory, at the start. -/
  | current
  /-- A step to the parent directory. -/
  | parent
  /-- A step to the entry of that name. -/
  | name (text : String)
deriving DecidableEq, Repr

/-- Components in their order: the root, the current directory, the parent
    directory, then the names by code points. -/
def Component.order : Component → Component → Ordering
  | .name a, .name b => compare a b
  | a, b => compare (rank a) (rank b)
where
  /-- The place of a component's sort in the order. -/
  rank : Component → Nat
    | .root => 0
    | .current => 1
    | .parent => 2
    | .name _ => 3

/-- Where a path starts. -/
inductive Anchor where
  /-- At the root. -/
  | root
  /-- At the current directory, by a dot. -/
  | current
  /-- At the current directory, without a word. -/
  | bare
deriving DecidableEq, Repr

/-- The anchor of a path and the pieces between the separators after it. -/
def split : List Char → Anchor × List (List Char)
  | [] => (.bare, [])
  | '/' :: rest => (.root, splitAt '/' rest)
  | ['.'] => (.current, [])
  | '.' :: '/' :: rest => (.current, splitAt '/' rest)
  | text => (.bare, splitAt '/' text)

/-- A piece that is no step: nothing between two separators, or a dot. -/
def isIdle (piece : List Char) : Bool :=
  piece = [] || piece = ['.']

/-- The path with this anchor and these pieces. -/
def ofPieces (anchor : Anchor) (pieces : List (List Char)) : Path :=
  let body := List.intercalate ['/'] pieces
  ⟨String.ofList <| match anchor with
    | .root => '/' :: body
    | .current => if pieces = [] then ['.'] else '.' :: '/' :: body
    | .bare => body⟩

/-- The step that a piece stands for. -/
def step (piece : List Char) : Component :=
  if piece = ['.', '.'] then .parent else .name (String.ofList piece)

/-- The component that an anchor stands for. -/
def Anchor.components : Anchor → List Component
  | .root => [.root]
  | .current => [.current]
  | .bare => []

/-- The components of a path. -/
def components (p : Path) : List Component :=
  let (anchor, pieces) := split p.text.toList
  anchor.components ++ (pieces.filter (! isIdle ·)).map step

/-- Whether the path starts at the root. -/
def isAbsolute (p : Path) : Bool :=
  p.text.toList.head? = some '/'

/-- The order by components; a path comes before those that extend it. -/
def order (p q : Path) : Ordering :=
  go p.components q.components
where
  /-- The order of lists of components. -/
  go : List Component → List Component → Ordering
    | [], [] => .eq
    | [], _ :: _ => .lt
    | _ :: _, [] => .gt
    | a :: as, b :: bs => (a.order b).then (go as bs)

/-- The path `q` seen from `p`: a separator goes between them unless `p` ends
    with one or is empty. A `q` that starts at the root stands alone. -/
def join (p q : Path) : Path :=
  if q.isAbsolute || p.text = "" then q
  else if (stripEnd? ['/'] p.text.toList).isSome then ⟨p.text ++ q.text⟩
  else ⟨p.text ++ "/" ++ q.text⟩

/-- Pieces without the idle ones at their end. -/
def dropIdleEnd (pieces : List (List Char)) : List (List Char) :=
  (pieces.reverse.dropWhile isIdle).reverse

/-- The path without its last component. The root and the empty path have no
    parent. -/
def parent? (p : Path) : Option Path :=
  let (anchor, pieces) := split p.text.toList
  match (pieces.reverse.dropWhile isIdle), anchor with
  | _ :: before, anchor => some (ofPieces anchor (before.dropWhile isIdle).reverse)
  | [], .current => some (ofPieces .bare [])
  | [], _ => none

/-- The name of the entry the path leads to, if its last component is a name. -/
def fileName? (p : Path) : Option String :=
  match p.components.getLast? with
  | some (.name text) => some text
  | _ => none

/-- The path with its last component, if that is a name, changed to `name`. -/
def withFileName (p : Path) (name : String) : Path :=
  match p.fileName?, p.parent? with
  | some _, some parent => parent.join ⟨name⟩
  | _, _ => p.join ⟨name⟩

/-- What the components of `p` add to those of `base`, if they start with them.
    The text of the rest is kept, but for idle pieces at its ends. -/
def relativeTo? (p base : Path) : Option Path :=
  if base.components.isPrefixOf p.components then
    let (anchor, pieces) := split p.text.toList
    match base.components.length, anchor with
    | 0, anchor => some (ofPieces anchor (dropIdleEnd pieces))
    | n + 1, .bare => some (rest (n + 1) pieces)
    | n + 1, _ => some (rest n pieces)
  else none
where
  /-- The pieces after the first `n` steps. -/
  afterSteps : (n : Nat) → List (List Char) → List (List Char)
    | _, [] => []
    | n, piece :: pieces =>
      if isIdle piece then afterSteps n pieces
      else match n with
        | 0 => piece :: pieces
        | n + 1 => afterSteps n pieces
  /-- The path after the first `n` steps. -/
  rest (n : Nat) (pieces : List (List Char)) : Path :=
    ofPieces .bare (dropIdleEnd (afterSteps n pieces))

/-- The part of a name before its last dot, and the part after it. A name
    without a dot, or with none but its first character, has no second part. -/
def splitExtension (name : String) : String × Option String :=
  match cutAt? '.' name.toList.reverse with
  | some (after, b :: before) =>
    (String.ofList (b :: before).reverse, some (String.ofList after.reverse))
  | _ => (name, none)

end Path

end PaperGraph
