import PaperGraph.Project.Basic
import PaperGraph.Watch.Batch

/-!
# Differences between trees

A watcher that looks at a tree of files again and again tells what differs from
its last look.

* `Event.between`: the event that leads from one tree to another.
-/

namespace PaperGraph

/-- The paths of the files below a directory. -/
def Tree.pathsAt (t : Tree) (directory : Path) : List Path :=
  (t.filesAt directory).map (·.1)

/-- Whether there is the same at a path in two trees. -/
def Tree.agreesAt (before after : Tree) (p : Path) : Bool :=
  match before.stat p, after.stat p with
  | .ok a, .ok b => a = b
  | .error _, .error _ => true
  | _, _ => false

/-- The event of the files below a directory that differ, if there are any. -/
def Event.between (before after : Tree) (directory : Path) : Option Event :=
  let paths := (before.pathsAt directory ++ after.pathsAt directory).filter fun p =>
    ¬ before.agreesAt after p
  if paths.isEmpty then none else some { change := .any, paths }

end PaperGraph
