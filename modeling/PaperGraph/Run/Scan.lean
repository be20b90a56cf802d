import PaperGraph.Run.Handling

/-!
# Scanning papers

The papers of a run are read one after the other, each line by line, and every
line is handled in the state that all earlier lines have left, those of earlier
papers included.

* `RunState.scanLine`, `RunState.scanLines`: the lines of a paper;
* `RunState.scan`: a paper; `RunState.scanAll`: all papers.
-/

namespace PaperGraph

open Text

/-- What a store answers to a request, which may depend on when it is made. -/
abbrev Resolver := Moment → Request → Answer

namespace RunState

/-- Handles the line of that number of the paper in `b`. -/
def scanLine (ask : Resolver) (s : RunState) (b : Buffer) (number : Nat) (line : List Char) :
    Except Failure (RunState × Buffer) := do
  let b := if startsBody line then { b with bodyStart? := some b.lines.length } else b
  let moment : Moment := { paper := s.buffers.length, line := number }
  let (s, output) ← s.handle (ask moment) { path := b.source.path, line := number } line
  return (s, { b with lines := b.lines ++ output.lines (String.ofList line) })

/-- Handles some lines of a paper, of which the first has that number. -/
def scanLines (ask : Resolver) (s : RunState) (b : Buffer) :
    (number : Nat) → List (List Char) → Except Failure (RunState × Buffer)
  | _, [] => .ok (s, b)
  | number, line :: rest => do
    let (s, b) ← s.scanLine ask b number line
    scanLines ask s b (number + 1) rest

/-- Reads a paper to its end. -/
def scan (ask : Resolver) (s : RunState) (source : Source) (text : String) :
    Except Failure RunState := do
  let (s, b) ← s.scanLines ask { source } 1 (inclusiveLines text.toList)
  return { s with buffers := s.buffers ++ [b] }

/-- Reads papers one after the other. -/
def scanAll (ask : Resolver) (s : RunState) : List (Source × String) → Except Failure RunState
  | [] => .ok s
  | (source, text) :: rest => do
    let s ← s.scan ask source text
    scanAll ask s rest

end RunState

end PaperGraph
