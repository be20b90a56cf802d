import PaperGraph.Text.Dictionary

/-!
# Graphs

A graph is a list of statements, in the order in which they were made and with
repetitions, together with short forms for namespaces. A statement (`Triple`)
says of a subject that a predicate relates it to an object; predicates are
IRIs, subjects and objects are *terms*.

* `Term.isNode`: IRIs and blank nodes are nodes, literals are not;
* `Term.order`, `Triple.order`: IRIs before blank nodes before literals, and
  texts by code points;
* `Graph.about`: the statements about a subject.
-/

namespace PaperGraph

open Text

/-- What a statement is about, or what it says. -/
inductive Term where
  /-- A thing known by its IRI. -/
  | iri (iri : String)
  /-- A thing without an IRI, known in its document by a label. -/
  | blank (label : String)
  /-- A value, with its datatype and its language if it has them. -/
  | literal (value : String) (datatype language : Option String)
deriving DecidableEq, Repr, Inhabited

namespace Term

/-- A literal with neither datatype nor language. -/
def plain (value : String) : Term :=
  .literal value none none

/-- Whether the term is a node, through which statements are linked. -/
def isNode : Term → Bool
  | .literal .. => false
  | _ => true

/-- The text of the term: its IRI, its label or its value. -/
def value : Term → String
  | .iri text => text
  | .blank label => label
  | .literal value _ _ => value

/-- The order of terms: IRIs, blank nodes, literals; in each sort by text. A
    literal without datatype or language comes before one with. -/
def order : Term → Term → Ordering
  | .iri a, .iri b => compare a b
  | .iri _, .blank _ => .lt
  | .iri _, .literal .. => .lt
  | .blank _, .iri _ => .gt
  | .blank a, .blank b => compare a b
  | .blank _, .literal .. => .lt
  | .literal v d l, .literal v' d' l' =>
    ((compare v v').then (compare d d')).then (compare l l')
  | .literal .., .iri _ => .gt
  | .literal .., .blank _ => .gt

end Term

/-- A statement. -/
structure Triple where
  /-- What it is about. -/
  subject : Term
  /-- The IRI of the relation. -/
  predicate : String
  /-- What the subject is related to. -/
  object : Term
deriving DecidableEq, Repr, Inhabited

/-- The order of statements: by subject, predicate and object. -/
def Triple.order (t u : Triple) : Ordering :=
  ((t.subject.order u.subject).then (compare t.predicate u.predicate)).then
    (t.object.order u.object)

/-- Statements in the order in which they were made, and short forms for
    namespaces. -/
structure Graph where
  /-- The statements. -/
  triples : List Triple := []
  /-- The short forms. -/
  namespaces : Dictionary := .empty

namespace Graph

instance : Inhabited Graph := ⟨{}⟩

/-- The graph of the given statements, without short forms. -/
def ofTriples (triples : List Triple) : Graph :=
  { triples }

/-- The graph with one more statement, at the end. -/
def add (g : Graph) (t : Triple) : Graph :=
  { g with triples := g.triples ++ [t] }

/-- The graph with a short form for a namespace. -/
def addNamespace (g : Graph) (short : String) (iri : String) : Graph :=
  { g with namespaces := g.namespaces.insert short iri }

/-- The number of statements, repetitions included. -/
def size (g : Graph) : Nat :=
  g.triples.length

/-- The statements about a subject. -/
def about (g : Graph) (subject : Term) : List Triple :=
  g.triples.filter (·.subject = subject)

end Graph

end PaperGraph
