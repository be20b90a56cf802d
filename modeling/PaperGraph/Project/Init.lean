import PaperGraph.Files.PathSet
import PaperGraph.Project.Basic

/-!
# New manifests

The manifest of a project that has none yet names the directory of the papers,
if all of them lie in one.
-/

namespace PaperGraph.Project

/-- The directories in which the sources of a project lie, seen from the
    project's directory. -/
def sourceDirectories (p : Project) : PathSet :=
  PathSet.insertAll {} <| p.sources.filterMap fun source =>
    source.path.parent?.map fun parent => (parent.relativeTo? p.root).getD parent

/-- The manifest for a project whose sources lie in some directories. -/
def manifestFor (directories : PathSet) : Manifest :=
  match directories.paths with
  | [d] => if d.components = [] then {} else { papers := d }
  | _ => {}

end PaperGraph.Project
