import PaperGraph.Graph.Basic

/-!
# Neighbourhoods

The neighbourhood of a term consists of the statements about it and about all
that is linked with it. A statement links its subject with its object, in both
directions, if the object is a node; literals link nothing, and neither do
predicates.

* `Graph.Linked`: linked by one statement; `Graph.Connected`: by a chain of
  statements;
* `Graph.reachable`: the terms connected with a term, found by a search that
  visits each term once;
* `Graph.neighbourhood`: the statements about these, in the order of the graph.
-/

namespace PaperGraph

namespace Graph

/-- Some statement of the graph links the two terms. -/
def Linked (g : Graph) (a b : Term) : Prop :=
  ∃ t ∈ g.triples, t.object.isNode ∧
    ((t.subject = a ∧ t.object = b) ∨ (t.object = a ∧ t.subject = b))

/-- A chain of statements of the graph leads from one term to the other. -/
inductive Connected (g : Graph) (root : Term) : Term → Prop
  /-- Every term is connected with itself. -/
  | refl : Connected g root root
  /-- A chain can be made longer by a link. -/
  | step {a b : Term} : Connected g root a → g.Linked a b → Connected g root b

/-- The terms that statements of the graph link with a term. -/
def linkedWith (g : Graph) (a : Term) : List Term :=
  g.triples.flatMap fun t =>
    if t.object.isNode then
      (if t.subject = a then [t.object] else []) ++ (if t.object = a then [t.subject] else [])
    else []

/-- The terms of a graph: its subjects and its objects. -/
def terms (g : Graph) : List Term :=
  g.triples.flatMap fun t => [t.subject, t.object]

/-- Each visit takes a term from the queue and puts those that are linked with
    it and not yet seen at the end of the queue. `fuel` bounds the visits. -/
def search (g : Graph) : (fuel : Nat) → (seen queue : List Term) → List Term
  | 0, seen, _ => seen
  | _ + 1, seen, [] => seen
  | fuel + 1, seen, a :: queue =>
    let fresh := (g.linkedWith a).filter (· ∉ seen) |>.eraseDups
    search g fuel (seen ++ fresh) (queue ++ fresh)

/-- The terms connected with `root`. Every term of the graph is visited at most
    once, so there are no more visits than terms, the root included. -/
def reachable (g : Graph) (root : Term) : List Term :=
  g.search (g.terms.length + 1) [root] [root]

/-- The statements about the terms connected with `root`, in the order of the
    graph and with its repetitions. -/
def neighbourhood (g : Graph) (root : Term) : List Triple :=
  let seen := g.reachable root
  g.triples.filter (·.subject ∈ seen)

end Graph

end PaperGraph
