import PaperGraph.Diagnostic
import PaperGraph.Export.Record
import PaperGraph.Project.Source
import PaperGraph.Text.Dictionary

/-!
# The state of a run

A run reads papers line by line. What it gathers on the way is its *state*: the
short forms declared so far, the exports, the kinds of the contributions that
were imported, the buffers of the papers that were read to their end, and the
diagnostics. A *buffer* holds the lines that will be the output of a paper.
-/

namespace PaperGraph

/-- What becomes of a line. -/
inductive LineOutput where
  /-- It stays as it is. -/
  | original
  /-- It is left out. -/
  | dropped
  /-- It is replaced by a text. -/
  | replaced (text : String)
deriving DecidableEq, Repr, Inhabited

/-- The lines that a line of a paper leaves in the output. -/
def LineOutput.lines (line : String) : LineOutput → List String
  | .original => [line]
  | .dropped => []
  | .replaced text => [text]

/-- The output of a paper while it is read. -/
structure Buffer where
  /-- The paper. -/
  source : Source
  /-- The pieces of the output, one for every line that was not left out. -/
  lines : List String := []
  /-- The number of pieces before the last line that starts the body of the
      document, if there was one. -/
  bodyStart? : Option Nat := none
deriving DecidableEq, Repr, Inhabited

/-- The output as a text. -/
def Buffer.text (b : Buffer) : String :=
  String.join b.lines

/-- What a run has gathered. -/
structure RunState where
  /-- The short forms declared. -/
  forms : Text.Dictionary := .empty
  /-- The exports. -/
  exports : Exports := []
  /-- The kinds of the contributions imported, in their order. -/
  imported : List Kind := []
  /-- The outputs of the papers read to their end. -/
  buffers : List Buffer := []
  /-- What the author is to be told. -/
  diagnostics : Diagnostics := []

/-- The state with one more diagnostic. -/
def RunState.report (s : RunState) (d : Diagnostic) : RunState :=
  { s with diagnostics := s.diagnostics ++ [d] }

@[simp]
theorem RunState.diagnostics_report (s : RunState) (d : Diagnostic) :
    (s.report d).diagnostics = s.diagnostics ++ [d] :=
  rfl

/-- When a request is made: by which line of which paper, by their numbers. -/
structure Moment where
  /-- The number of the paper, the first being 0. -/
  paper : Nat
  /-- The number of the line, the first being 1. -/
  line : Nat
deriving DecidableEq, Repr

end PaperGraph
