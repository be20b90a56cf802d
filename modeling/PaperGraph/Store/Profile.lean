import PaperGraph.Export.Record
import PaperGraph.Graph.Neighbourhood
import PaperGraph.Store.Basic

/-!
# Profiles of contributions

What a graph knows of a contribution is all that is stated in its
neighbourhood: repeated statements count once, and of several objects of a
predicate the last one holds. The neighbourhood has to tell the kind of the
contribution exactly once.

* `Profile.of`: the profile of an IRI;
* `Profile.missing`: the predicates that its kind requires and that it lacks;
* `Graph.resolve`: the answer to a request;
* `Inspection.of`: the profile of an IRI, or what little is known of it.
-/

namespace PaperGraph

/-- What a graph knows of a contribution. -/
structure Profile where
  /-- Its kind. -/
  kind : Kind
  /-- The last object of every predicate, in the order of first statements. -/
  facts : Facts
deriving DecidableEq, Repr

namespace Profile

/-- The predicates required of the kind that are not stated. -/
def missing (p : Profile) : List String :=
  p.kind.missing (p.facts.map (·.1))

/-- The predicates and objects of some statements. -/
def factsOf (triples : List Triple) : Facts :=
  Facts.flatten (triples.map fun t => (t.predicate, t.object.value))

/-- The profile of an IRI in a graph. -/
def of (g : Graph) (iri : String) : Except ResolveFault Profile :=
  let known := (g.neighbourhood (.iri iri)).eraseDups
  if known = [] then .error (.unknownContent iri)
  else match known.filter (·.predicate = Vocabulary.type) with
    | [t] =>
      match Kind.ofName? t.object.value with
      | some kind => .ok { kind, facts := factsOf known }
      | none => .error (.unsupportedKind iri t.object.value)
    | types => .error (.classification iri types.length)

end Profile

namespace Graph

/-- The answer to a request from a graph. A figure needs a file for its image:
    `hasMedia` tells which URLs have one. -/
def resolve (g : Graph) (hasMedia : String → Bool) (r : Request) : Answer := do
  let profile ← Profile.of g r.iri
  if profile.missing ≠ [] then .error (.incomplete r.iri profile.missing)
  let url := profile.facts.valueOf Vocabulary.figureUrl
  if profile.kind = .figure ∧ ¬ hasMedia url then .error (.missingMedia url)
  return {
    snippet := Snippet.render profile.kind profile.facts r.label r.key
    kind := profile.kind }

/-- What is stated right about an IRI, in the order of the graph. -/
def direct (g : Graph) (iri : String) : Facts :=
  (g.about (.iri iri)).map fun t => (t.predicate, t.object.value)

end Graph

/-- What can be shown of an IRI. -/
structure Inspection where
  /-- The IRI. -/
  iri : String
  /-- The kind of the contribution, if it has a profile. -/
  kind : Option Kind
  /-- The facts of its profile, or else what is stated right about it. -/
  facts : Facts
  /-- The predicates that it lacks. -/
  missing : List String
  /-- Why it has no profile. -/
  fault : Option ResolveFault
deriving DecidableEq, Repr

/-- What a graph can show of an IRI. -/
def Inspection.of (g : Graph) (iri : String) : Inspection :=
  match Profile.of g iri with
  | .ok p => { iri, kind := some p.kind, facts := p.facts, missing := p.missing, fault := none }
  | .error fault => { iri, kind := none, facts := g.direct iri, missing := [], fault := some fault }

end PaperGraph
