import PaperGraph.Run.Root
import PaperGraph.Run.Scan

/-!
# Drafts

A draft is all that a run finds out about its papers before anything is
written: the outputs, which of them is the root, what was imported and exported,
and what the author is to be told. Which exports can be published is found out
later, see `PaperGraph.Run.Report`.
-/

namespace PaperGraph

/-- A paper with its output. -/
structure Output where
  /-- The paper. -/
  source : Source
  /-- The text of the output. -/
  text : String
deriving DecidableEq, Repr, Inhabited

/-- What a run finds out about its papers before anything is written. -/
structure Draft where
  /-- The outputs, in the order of the papers. -/
  outputs : List Output
  /-- The path of the root. -/
  root : Path
  /-- The kinds of the contributions that were imported. -/
  imported : List Kind
  /-- The number of environments put into the root. -/
  environments : Nat
  /-- The exports. -/
  exports : Exports
  /-- What the author is to be told about the papers. -/
  diagnostics : Diagnostics

/-- The draft of a run that has read all its papers. -/
def RunState.draft (s : RunState) : Except Failure Draft := do
  let n ← Root.select s.buffers
  let environments := (Kind.environments s.imported).map (·.2)
  let buffers := s.buffers.modify n (·.insertEnvironments environments)
  return {
    outputs := buffers.map fun b => { source := b.source, text := b.text }
    root := s.buffers[n].source.path
    imported := s.imported
    environments := environments.length
    exports := s.exports
    diagnostics := s.diagnostics }

/-- The draft for some papers, with `ask` for the store. -/
def Draft.ofTexts (ask : Resolver) (papers : List (Source × String)) : Except Failure Draft := do
  let s ← RunState.scanAll ask {} papers
  s.draft

end PaperGraph
