import PaperGraph.Command.Basic
import PaperGraph.Command.Json
import PaperGraph.Command.Wording
import PaperGraph.Project.Init
import PaperGraph.Run.Report
import PaperGraph.Run.Resolver
import PaperGraph.Watch.Batch

/-!
# Execution of commands

A command works on a *console*: the tree of files and the two texts that it
prints, one for programs and one for people. What was printed and written before
a failure stays.

* `Command.runBuild`, `Command.runCheck`, `Command.runInspect`,
  `Command.runInit`: the commands;
* `Command.startWatch`, `Command.rebuild`: the steps of a watch.
-/

namespace PaperGraph

/-- What a command works on. -/
structure Console where
  /-- The files. -/
  tree : Tree
  /-- The directory in which the command is called. -/
  workingDirectory : Path
  /-- What is printed for programs. -/
  out : String := ""
  /-- What is printed for people. -/
  err : String := ""

/-- What a command does, which can fail. -/
abbrev Action := ExceptT Failure (StateM Console)

namespace Action

/-- Work on the tree. -/
def onTree {α : Type} (work : Work α) : Action α := do
  let c ← get
  let (result, tree) := work.run.run c.tree
  set { c with tree }
  match result with
  | .ok a => return a
  | .error f => throw f

/-- Prints a text for programs. -/
def print (text : String) : Action Unit :=
  modify fun c => { c with out := c.out ++ text }

/-- Prints a text for people. -/
def tell (text : String) : Action Unit :=
  modify fun c => { c with err := c.err ++ text }

/-- Tells a step of work. -/
def status (word message : String) : Action Unit :=
  tell (statusLine word message)

/-- A path as it is shown. -/
def shown (p : Path) : Action String :=
  return p.display (← get).workingDirectory

/-- Tells a step of work on a file. -/
def statusOn (word : String) (p : Path) : Action Unit := do
  status word (← shown p)

end Action

namespace Command

open PaperGraph.Action

/-- The project that is meant. -/
def loadProject (o : ProjectOptions) : Action Project := do
  Project.load (← get).tree o.root o.overrides

/-- The knowledge store of a project. -/
def openStore (p : Project) : Action MinSkg := do
  MinSkg.openAt (← get).tree p.manifest.backend p.store p.media

/-- A run over the sources of a project, its publication under an
    identifier. -/
def run (p : Project) (s : MinSkg) (id : String) (dry : Bool) : Action Report := do
  let ask := s.resolver (← get).tree p.manifest.limit?
  let options : RunOptions := { exportPath := p.exportPath, format := p.manifest.format, dry }
  onTree (Run.ofSources ask options id p.sources)

/-- Tells what a run has done. -/
def tellReport (r : Report) (exportPath : Path) : Action Unit := do
  let d := r.draft
  r.diagnostics.forM fun diagnostic => tell diagnostic.format
  if ¬ r.dry then
    d.outputs.forM fun o => statusOn "Wrote" o.source.output
  if 0 < d.environments then
    status "Injected"
      (plural d.environments "environment" "environments" ++ " into " ++ (← shown d.root))
  if r.dry then
    status "Exports" (toString r.validation.accepted.length ++ " valid, " ++
      toString r.validation.rejected.length ++ " rejected")
  else
    status "Exported"
      (plural r.published "contribution" "contributions" ++ " to " ++ exportPath.text)
  status "Finished" (plural d.outputs.length "file" "files" ++ " (" ++
    plural r.diagnostics.errorCount "error" "errors" ++ ", " ++
    plural r.diagnostics.warningCount "warning" "warnings" ++ ")")

/-- A build of a project whose store is open. -/
def buildWith (p : Project) (s : MinSkg) (id : String) : Action Report := do
  p.sources.forM fun source => statusOn "Processing" source.path
  let report ← run p s id false
  tellReport report p.exportPath
  return report

/-- Makes the outputs and the publication of a project. -/
def runBuild (o : ProjectOptions) (id : String) : Action Report := do
  let p ← loadProject o
  buildWith p (← openStore p) id

/-- A build in a watch, which goes on if the build fails. -/
def tryBuild (p : Project) (s : MinSkg) (id : String) : Action Unit := do
  try discard <| buildWith p s id
  catch f => status "Failed" f.message

/-- The start of a watch: the first build, whose project and store it keeps. -/
def startWatch (o : ProjectOptions) (id : String) : Action (Project × MinSkg) := do
  let p ← loadProject o
  let s ← openStore p
  tryBuild p s id
  statusOn "Watching" p.papers
  return (p, s)

/-- The next build of a watch, after a batch of changes. -/
def rebuild (p : Project) (s : MinSkg) (b : Batch) (id : String) : Action Unit := do
  status "Changed" (plural b.size "source" "sources")
  tryBuild (p.rescan (← get).tree) s id

/-- Finds out what a build would tell, and fails if there are errors, or, in a
    strict check, if there is anything to tell. -/
def runCheck (o : ProjectOptions) (strict : Bool) : Action Report := do
  let p ← loadProject o
  let s ← openStore p
  p.sources.forM fun source => statusOn "Checking" source.path
  let report ← run p s "" true
  tellReport report p.exportPath
  let ds := report.diagnostics
  let count := if strict then ds.length else ds.errorCount
  if 0 < count then throw (.checkFailed count)
  return report

/-- Tells what is known of an IRI. -/
def tellInspection (i : Inspection) : Action Unit := do
  match i.kind, i.fault with
  | some kind, _ => status kind.name i.iri
  | none, some fault => status "Unresolved" fault.message
  | none, none => status "Unresolved" i.iri
  i.facts.forM fun (predicate, object) => status (Vocabulary.compact predicate) object
  if i.missing ≠ [] then
    status "Missing" (", ".intercalate (i.missing.map Vocabulary.compact))

/-- Shows what the store of a project knows of an IRI. -/
def runInspect (iri : String) (json : Bool) (o : ProjectOptions) : Action Inspection := do
  let p ← loadProject o
  let s ← openStore p
  let i := Inspection.of s.graph iri
  if json then print (i.json.write 0 ++ "\n") else tellInspection i
  return i

/-- Writes a manifest for the project in a directory. An older one is only
    replaced if that is forced. -/
def runInit (root : Path) (force : Bool) : Action Unit := do
  let path := Project.manifestPath root
  if (← get).tree.has path ∧ ¬ force then throw .manifestExists
  statusOn "Scanning" root
  let p ← loadProject { root }
  let directories := p.sourceDirectories
  onTree (Work.writeText path (Project.manifestFor directories).write .writeManifest)
  if ¬ directories.isEmpty then
    status "Discovered" (", ".intercalate (directories.paths.map fun d =>
      if d.components = [] then "." else d.text))
  status "Created" (Failure.manifestName ++ " (" ++
    plural p.sources.length "source" "sources" ++ " found)")

end Command

end PaperGraph
