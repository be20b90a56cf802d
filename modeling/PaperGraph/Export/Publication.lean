import PaperGraph.Export.Validation
import PaperGraph.Graph.Turtle

/-!
# Publications

What a run exports is published as a graph of its own: a new publication, the
contributions it makes, numbered from 0, and every pair stated of each of these
as a statement with a plain literal.

* `Publication.ofContributions`: the publication of some contributions under an
  identifier;
* `Publication.render`: its graph as a text.
-/

namespace PaperGraph

/-- The forms in which a publication is written. -/
inductive Format where
  /-- Short and sorted. -/
  | turtle
  /-- A statement on every line. -/
  | ntriples
deriving DecidableEq, Repr, Inhabited

namespace Format

/-- The name of a form. -/
def name : Format → String
  | .turtle => "turtle"
  | .ntriples => "ntriples"

/-- The form of that name. -/
def ofName? (name : String) : Option Format :=
  [Format.turtle, .ntriples].find? (·.name = name)

end Format

/-- A new publication and what it contributes. -/
structure Publication where
  /-- Its IRI. -/
  iri : String
  /-- The IRIs of its contributions. -/
  contributions : List String
  /-- All that is said of it and them. -/
  graph : Graph

namespace Publication

/-- The IRI of a new publication. -/
def iriOf (id : String) : String :=
  Vocabulary.publications ++ "NEW/" ++ id

/-- The IRI of a contribution of a publication. -/
def contributionIri (publication : String) (number : Nat) : String :=
  publication ++ "/contrib" ++ toString number

/-- What is said of a contribution: that it is one of the publication, and all
    its pairs. -/
def statements (publication : String) (number : Nat) (c : Contribution) : List Triple :=
  let subject := Term.iri (contributionIri publication number)
  { subject := .iri publication, predicate := Vocabulary.hasContribution, object := subject } ::
    c.pairs.map fun (predicate, object) => { subject, predicate, object := .plain object }

/-- The publication of some contributions under an identifier. -/
def ofContributions (contributions : List Contribution) (id : String) : Publication where
  iri := iriOf id
  contributions := (List.range contributions.length).map (contributionIri (iriOf id))
  graph :=
    let triples := contributions.zipIdx.flatMap fun (c, number) => statements (iriOf id) number c
    ((Graph.ofTriples triples).addNamespace "terms" Vocabulary.terms).addNamespace "publ"
      Vocabulary.publications

@[simp]
theorem iri_ofContributions (contributions : List Contribution) (id : String) :
    (ofContributions contributions id).iri = iriOf id :=
  rfl

@[simp]
theorem length_contributions_ofContributions (contributions : List Contribution)
    (id : String) :
    (ofContributions contributions id).contributions.length = contributions.length := by
  rw [ofContributions, List.length_map, List.length_range]

/-- The graph of a publication as a text. -/
def render (p : Publication) : Format → String
  | .turtle => Turtle.write p.graph
  | .ntriples => NTriples.write p.graph

end Publication

end PaperGraph
