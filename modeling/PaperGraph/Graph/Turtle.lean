import PaperGraph.Graph.NTriples

/-!
# Turtle

Turtle is a shorter form of writing a graph. The namespaces are declared first.
Then comes a block for every subject, with a line for every statement about it;
blocks and lines are sorted and a repeated statement is written once, so that
the text depends on the set of statements only.

* `Turtle.writeIri`: an IRI, shortened if the rest after a namespace is a plain
  name;
* `Turtle.write`: a whole graph.
-/

namespace PaperGraph.Turtle

open Text

/-- Whether a text may follow a short form: letters, digits, `_` and `-`, but
    no `-` at the start. -/
def isPlainName (name : List Char) : Bool :=
  name ≠ [] && name.all (fun c => c.isAlphanum || c = '_' || c = '-') && name.head? ≠ some '-'

/-- An IRI, with the first namespace that leaves a plain name shortened. -/
def writeIri (namespaces : Dictionary) (iri : String) : String :=
  let shortened := namespaces.entries.findSome? fun (short, start) =>
    match stripStart? start.toList iri.toList with
    | some name => if isPlainName name then some (short ++ ":" ++ String.ofList name) else none
    | none => none
  shortened.getD ("<" ++ iri ++ ">")

/-- A term, its IRIs shortened. -/
def writeTerm (namespaces : Dictionary) : Term → String
  | .iri iri => writeIri namespaces iri
  | .blank label => "_:" ++ label
  | .literal value datatype language =>
    "\"" ++ NTriples.escape value ++ "\"" ++
      match language, datatype with
      | some tag, _ => "@" ++ tag
      | none, some iri => "^^" ++ writeIri namespaces iri
      | none, none => ""

/-- The declaration of a namespace. -/
def writeNamespace (entry : String × String) : String :=
  "@prefix " ++ entry.1 ++ ": <" ++ entry.2 ++ "> .\n"

/-- The line for a statement in the block of its subject. -/
def writeStatement (namespaces : Dictionary) (t : Triple) : String :=
  "    " ++ writeIri namespaces t.predicate ++ " " ++ writeTerm namespaces t.object

/-- A list without the elements that equal the one before them. -/
def dropRepeats {α : Type} [DecidableEq α] : List α → List α
  | [] => []
  | [a] => [a]
  | a :: b :: rest => if a = b then dropRepeats (b :: rest) else a :: dropRepeats (b :: rest)

/-- The statements of a graph in their order, each once. -/
def canonical (triples : List Triple) : List Triple :=
  dropRepeats (triples.mergeSort fun t u => (t.order u).isLE)

/-- Statements gathered by subject, where those about one subject stand
    together. -/
def blocks : List Triple → List (Term × List Triple)
  | [] => []
  | t :: rest =>
    match blocks rest with
    | (s, ts) :: more =>
      if s = t.subject then (s, t :: ts) :: more else (t.subject, [t]) :: (s, ts) :: more
    | [] => [(t.subject, [t])]

/-- The block of a subject. -/
def writeBlock (namespaces : Dictionary) (block : Term × List Triple) : String :=
  writeTerm namespaces block.1 ++ "\n" ++
    " ;\n".intercalate (block.2.map (writeStatement namespaces)) ++ " .\n"

/-- A graph in Turtle. -/
def write (g : Graph) : String :=
  let header := g.namespaces.entries.map writeNamespace
  let body := (blocks (canonical g.triples)).map (writeBlock g.namespaces)
  String.join header ++ (if header = [] then "" else "\n") ++ "\n".intercalate body

end PaperGraph.Turtle
