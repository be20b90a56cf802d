import PaperGraph.Failure
import PaperGraph.Run.Basic

/-!
# The root

The root is the one paper of a run in which the body of a document starts.
Before that place go the environments of the contributions that were imported
anywhere in the run.

* `Root.select`: the number of the root among the buffers;
* `Buffer.insertEnvironments`: a buffer with some environments.
-/

namespace PaperGraph

/-- The numbers of the buffers in which the body of a document starts. -/
def Root.candidates (buffers : List Buffer) : List (Fin buffers.length) :=
  (List.finRange buffers.length).filter fun n => buffers[n].bodyStart?.isSome

/-- The number of the root. No root, or several ones, end the run. -/
def Root.select (buffers : List Buffer) : Except Failure (Fin buffers.length) :=
  match candidates buffers with
  | [n] => .ok n
  | others => .error (.noSingleRoot (others.map fun n => buffers[n].source.path))

/-- A buffer with some environments before the body of the document. If that
    does not start in it, there is no place for them. -/
def Buffer.insertEnvironments (b : Buffer) (environments : List String) : Buffer :=
  match b.bodyStart? with
  | none => b
  | some n => { b with lines := b.lines.take n ++ environments ++ b.lines.drop n }

end PaperGraph
