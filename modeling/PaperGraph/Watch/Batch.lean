import PaperGraph.Files.PathSet
import PaperGraph.Project.Source

/-!
# Batches of changes

Changes to files come in bursts. A *batch* is the set of the sources that a
burst touches, in the order of paths; of two spellings of a path the first is
kept.

* `Change.isRelevant`: the changes that can make another run necessary;
* `Batch.absorb`: a batch with what an event touches.
-/

namespace PaperGraph

/-- What happens to a file. -/
inductive Change where
  /-- It is made. -/
  | create
  /-- Its content changes. -/
  | modify
  /-- Its name changes. -/
  | rename
  /-- It is removed. -/
  | remove
  /-- It is not told what happens. -/
  | any
  /-- It is read. -/
  | access
  /-- Something that is neither of these. -/
  | other
deriving DecidableEq, Repr, Inhabited

/-- Whether a change can make another run necessary. -/
def Change.isRelevant : Change → Bool
  | .access => false
  | .other => false
  | _ => true

/-- A change of some files. -/
structure Event where
  /-- What happens. -/
  change : Change
  /-- The files. -/
  paths : List Path
deriving DecidableEq, Repr, Inhabited

/-- The sources that a burst touches. -/
abbrev Batch := PathSet

/-- A batch with the sources that an event touches. -/
def Batch.absorb (b : Batch) (e : Event) : Batch :=
  if e.change.isRelevant then b.insertAll (e.paths.filter (·.isSource)) else b

end PaperGraph
