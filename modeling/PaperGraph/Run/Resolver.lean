import PaperGraph.Run.Scan
import PaperGraph.Store.MinSkg

/-!
# Resolving imports from a store

A run asks the store for every import anew, each time within the time limit.
-/

namespace PaperGraph

/-- What a store answers in a run, whose media are in a tree. -/
def MinSkg.resolver (s : MinSkg) (t : Tree) (limit? : Option Nat) : Resolver :=
  fun _ r => (s.store t).ask r limit?

end PaperGraph
