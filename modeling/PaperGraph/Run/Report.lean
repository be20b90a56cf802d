import PaperGraph.Export.Publication
import PaperGraph.Files.Tree
import PaperGraph.Run.Draft

/-!
# Runs

A run makes a draft and then writes it: the outputs in the order of the papers,
and after them the publication of the exports, which replaces an older one even
if there is nothing to publish. All papers are read before anything is written,
so that a run that gives up on a paper has changed nothing. The exports are
validated when they are published. A dry run does not write at all, and
validates them all the same.

* `Work`: work on a tree that can fail on the way;
* `Run.writeDraft`: what a run does about a draft, dry or not;
* `Run.ofTexts`, `Run.ofSources`: runs over texts and over files.
-/

namespace PaperGraph

/-- Work on a tree. If it fails, the tree is left as far as the work got. -/
abbrev Work := ExceptT Failure (StateM Tree)

namespace Work

/-- The text of a file. -/
def readText (path : Path) (action : FileAction) : Work String := do
  match (← get).read path with
  | .ok text => return text
  | .error fault => throw (.file path action fault)

/-- Writes a text to a file. -/
def writeText (path : Path) (text : String) (action : FileAction) : Work Unit := do
  match (← get).write path (.text text) with
  | .ok t => set t
  | .error fault => throw (.file path action fault)

/-- Makes the directory that a file lies in. -/
def makeParent (path : Path) (action : FileAction) : Work Unit := do
  match path.parent? with
  | none => return
  | some parent =>
    match (← get).makeDirectories parent with
    | .ok t => set t
    | .error fault => throw (.file parent action fault)

end Work

/-- How a run is made. -/
structure RunOptions where
  /-- Where the publication is written. -/
  exportPath : Path
  /-- The form of the publication. -/
  format : Format := .turtle
  /-- Whether nothing is written. -/
  dry : Bool := false
deriving DecidableEq, Repr, Inhabited

/-- What has become of the exports of a run. -/
structure Exported where
  /-- Which of them can be published. -/
  validation : Validation
  /-- The number of contributions published. -/
  published : Nat
  /-- The IRI of the publication, if it was written. -/
  publication : Option String
deriving DecidableEq, Repr, Inhabited

/-- What a run has done. -/
structure Report extends Exported where
  /-- What it found out about its papers. -/
  draft : Draft
  /-- What the author is to be told, about the papers and then about the exports. -/
  diagnostics : Diagnostics
  /-- Whether it was a dry run. -/
  dry : Bool

namespace Run

/-- Writes an output. -/
def writeOutput (o : Output) : Work Unit := do
  Work.makeParent o.source.output .createOutputDirectory
  Work.writeText o.source.output o.text .writeOutput

/-- Writes a publication. -/
def publish (options : RunOptions) (p : Publication) : Work Unit := do
  Work.makeParent options.exportPath .createExportDirectory
  Work.writeText options.exportPath (p.render options.format) .writeExport

/-- Validates exports and writes the publication of what is accepted, under the
    identifier `id`. -/
def publishExports (options : RunOptions) (id : String) (exports : Exports) :
    Work Exported := do
  let validation := exports.validate
  let p := Publication.ofContributions validation.accepted id
  publish options p
  return { validation, published := p.contributions.length, publication := some p.iri }

/-- Writes the outputs of a draft and then the publication of its exports. A dry
    run validates them only. -/
def writeDraft (options : RunOptions) (id : String) (draft : Draft) : Work Exported := do
  if options.dry then
    return { validation := draft.exports.validate, published := 0, publication := none }
  draft.outputs.forM writeOutput
  publishExports options id draft.exports

/-- Writes a draft and reports what was done, about the papers first. -/
def commit (options : RunOptions) (id : String) (draft : Draft) : Work Report := do
  let exported ← writeDraft options id draft
  return { exported with
    draft
    diagnostics := draft.diagnostics ++ exported.validation.diagnostics
    dry := options.dry }

/-- A run over papers whose texts are given. -/
def ofTexts (ask : Resolver) (options : RunOptions) (id : String)
    (papers : List (Source × String)) : Work Report := do
  let draft ← Draft.ofTexts ask papers
  commit options id draft

/-- A run over papers in files. -/
def ofSources (ask : Resolver) (options : RunOptions) (id : String) (sources : List Source) :
    Work Report := do
  let papers ← sources.mapM fun source =>
    return (source, ← Work.readText source.path .readSource)
  ofTexts ask options id papers

end Run

end PaperGraph
