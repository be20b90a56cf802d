import PaperGraph.Failure
import PaperGraph.Store.Media
import PaperGraph.Store.Profile
import PaperGraph.Store.Timed

/-!
# The MinSKG store

The one store there is: a list of statements in a file, read as a whole when
the store is opened, and a directory of media.
-/

namespace PaperGraph

/-- A knowledge store held in memory. -/
structure MinSkg where
  /-- What it knows. -/
  graph : Graph
  /-- The directory of its media. -/
  media : Path

namespace MinSkg

/-- The name of the store. -/
def name : String := "MinSKG"

/-- Refuses the names of other stores. -/
def ensureSupported (requested : String) : Except Failure Unit :=
  if sameStoreName requested name then .ok () else .error (.unsupportedBackend requested)

/-- The store of that name, read from a file. -/
def openAt (t : Tree) (requested : String) (path media : Path) : Except Failure MinSkg := do
  ensureSupported requested
  match t.read path with
  | .error fault => .error (.file path .readStore fault)
  | .ok text =>
    match NTriples.parse text with
    | .error fault => .error (.badStore path fault)
    | .ok graph => .ok { graph, media }

/-- The store with the media of a tree. -/
def store (s : MinSkg) (t : Tree) : Store where
  name := name
  answer := s.graph.resolve (t.hasMedia s.media)

end MinSkg

end PaperGraph
