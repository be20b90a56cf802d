import PaperGraph.Failure
import PaperGraph.Files.Tree
import PaperGraph.Project.Excludes
import PaperGraph.Project.Manifest
import PaperGraph.Project.Source

/-!
# Projects

A project lives in a directory, with or without a manifest. Its sources are all
files below the directory of its papers that have the name of a source and are
not excluded, in the order of their paths.

* `Tree.sources`: the sources below a directory;
* `Project.ofManifest`, `Project.load`: the project in a directory;
* `Overrides.apply`: a manifest with what is told on the command line.
-/

namespace PaperGraph

/-- The paths of the files below a directory, or of the file at that path, each
    with the part of it below the path. -/
def Tree.filesAt (t : Tree) (p : Path) : List (Path × Path) :=
  match t.locate p with
  | .error _ => []
  | .ok l =>
    match t.get? l with
    | none => []
    | some (.file _) => [(p, ⟨""⟩)]
    | some .directory =>
      (t.below l).map fun names =>
        (names.foldl (fun p name => p.join ⟨name⟩) p, ⟨"/".intercalate names⟩)

/-- The sources below a directory that are not excluded, in the order of their
    paths. -/
def Tree.sources (t : Tree) (directory : Path) (excludes : List String) : List Source :=
  let kept := (t.filesAt directory).filter fun (_, relative) => ! relative.isExcluded excludes
  (kept.filterMap fun (p, _) => Source.ofPath? p).mergeSort fun a b => (a.path.order b.path).isLE

/-- A project, the paths of its manifest being seen from its directory. -/
structure Project where
  /-- Its directory. -/
  root : Path
  /-- Its manifest, or the default one. -/
  manifest : Manifest
  /-- Whether it has a manifest. -/
  hasManifest : Bool
  /-- The directory of its papers. -/
  papers : Path
  /-- Where its publication goes. -/
  exportPath : Path
  /-- The file of its knowledge store. -/
  store : Path
  /-- The directory of its media. -/
  media : Path
  /-- Its sources. -/
  sources : List Source
deriving DecidableEq, Repr

/-- What is told on the command line and goes before the manifest. -/
structure Overrides where
  /-- The directory of the papers. -/
  papers : Option Path := none
  /-- Where the publication goes. -/
  exportPath : Option Path := none
  /-- The form of the publication. -/
  format : Option Format := none
  /-- The name of the knowledge store. -/
  backend : Option String := none
  /-- The file of the knowledge store. -/
  store : Option Path := none
  /-- The directory of the media. -/
  media : Option Path := none
  /-- The time limit of requests in milliseconds, or 0 if there is none. -/
  timeout : Option Nat := none
deriving DecidableEq, Repr, Inhabited

/-- A manifest with what is told on the command line. -/
def Overrides.apply (o : Overrides) (m : Manifest) : Manifest where
  papers := o.papers.getD m.papers
  exportPath := o.exportPath.getD m.exportPath
  format := o.format.getD m.format
  backend := o.backend.getD m.backend
  store := o.store.getD m.store
  media := o.media <|> m.media
  timeout := o.timeout.getD m.timeout
  excludes := m.excludes

namespace Project

/-- The path of the manifest of a project. -/
def manifestPath (root : Path) : Path :=
  root.join ⟨Failure.manifestName⟩

/-- The manifest of a project, if it has one. -/
def loadManifest (t : Tree) (root : Path) : Except Failure (Option Manifest) :=
  let p := manifestPath root
  if t.has p then
    match t.read p with
    | .error fault => .error (.file p .readManifest fault)
    | .ok text =>
      match Manifest.parse? text with
      | some m => .ok (some m)
      | none => .error .badManifest
  else .ok none

/-- The project with a manifest. -/
def ofManifest (t : Tree) (root : Path) (manifest : Manifest) (hasManifest : Bool) : Project :=
  let papers := root.join manifest.papers
  { root
    manifest
    hasManifest
    papers
    exportPath := root.join manifest.exportPath
    store := root.join manifest.store
    media := (manifest.media.map root.join).getD papers
    sources := t.sources papers manifest.excludes }

/-- The project in a directory. -/
def load (t : Tree) (root : Path) (o : Overrides := {}) : Except Failure Project := do
  let manifest ← loadManifest t root
  return ofManifest t root (o.apply (manifest.getD {})) manifest.isSome

/-- The project with the sources that there are now. -/
def rescan (p : Project) (t : Tree) : Project :=
  { p with sources := t.sources p.papers p.manifest.excludes }

end Project

end PaperGraph
