import PaperGraph.Files.Path

/-!
# Sets of paths

A set of paths lists them in their order. Paths with the same components are
the same to a set, and of two spellings it keeps the first one it was given.
-/

namespace PaperGraph

/-- A set of paths. -/
structure PathSet where
  /-- The paths, in their order. -/
  paths : List Path := []
deriving DecidableEq, Repr, Inhabited

namespace PathSet

/-- Paths in their order with one more, unless it is among them. -/
def insertOrdered (p : Path) : List Path → List Path
  | [] => [p]
  | q :: rest =>
    match p.order q with
    | .lt => p :: q :: rest
    | .eq => q :: rest
    | .gt => q :: insertOrdered p rest

/-- The set with one more path. -/
def insert (s : PathSet) (p : Path) : PathSet where
  paths := insertOrdered p s.paths

/-- The set with some more paths. -/
def insertAll (s : PathSet) (ps : List Path) : PathSet :=
  ps.foldl insert s

/-- Whether nothing is in the set. -/
def isEmpty (s : PathSet) : Bool :=
  s.paths.isEmpty

/-- The number of paths. -/
def size (s : PathSet) : Nat :=
  s.paths.length

end PathSet

end PaperGraph
