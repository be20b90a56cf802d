import PaperGraph.Files.Path
import PaperGraph.Text.Search

/-!
# Sources

A paper is written in a *source*, a file whose name ends in `.rdf.tex`, with
something before that. Its output lies next to it and ends in `.tex` instead.
-/

namespace PaperGraph

open Text

/-- The ending of the names of sources. -/
def sourceEnding : String := ".rdf.tex"

/-- The name of a source without its ending, if that is one. -/
def sourceStem? (name : String) : Option String :=
  match stripEnd? sourceEnding.toList name.toList with
  | none => none
  | some [] => none
  | some (c :: stem) => some (String.ofList (c :: stem))

namespace Path

/-- The path of the output, if this is the path of a source. -/
def output? (p : Path) : Option Path := do
  let stem ← sourceStem? (← p.fileName?)
  return p.withFileName (stem ++ ".tex")

/-- Whether this is the path of a source. -/
def isSource (p : Path) : Bool :=
  p.output?.isSome

end Path

/-- A source and the output made from it. -/
structure Source where
  /-- The path of the source. -/
  path : Path
  /-- The path of its output. -/
  output : Path
deriving DecidableEq, Repr, Inhabited

/-- The source at a path, with its output, if there can be one. -/
def Source.ofPath? (p : Path) : Option Source :=
  p.output?.map fun output => { path := p, output }

end PaperGraph
