import PaperGraph.Text.Measure
import PaperGraph.Text.Search

/-!
# Directives

A directive is a command in a paper that is not for LaTeX: it declares a short
form for IRIs, imports or exports a contribution, or states a property of an
export. A line belongs to the first directive, in the order of `Directive.all`,
that occurs in it. All but properties, which stand in running text, are taken
for mere mentions after a space.

* `Directive.occurrence?`: the first occurrence of a directive in a line;
* `Directive.classify`: the directive that a line belongs to.
-/

namespace PaperGraph

open Text

/-- The directives. -/
inductive Directive where
  /-- Declares a short form: token, expansion. -/
  | shortForm
  /-- Imports a contribution: label, citation key, IRI, store. -/
  | importing
  /-- Declares an export: name, kind, pairs. -/
  | exporting
  /-- States a property of an export: name, predicate, object. -/
  | property
deriving DecidableEq, Repr, Inhabited

namespace Directive

/-- The directives in the order in which a line is tried for them. -/
def all : List Directive :=
  [.shortForm, .importing, .exporting, .property]

/-- The label of a directive in the codes of diagnostics. -/
def label : Directive → String
  | .shortForm => "prefix"
  | .importing => "import"
  | .exporting => "export"
  | .property => "property"

/-- The command that a directive is written with. -/
def command (d : Directive) : String :=
  "\\rdf" ++ d.label

/-- The number of its arguments. -/
def arity : Directive → Nat
  | .shortForm => 2
  | .importing => 4
  | .exporting => 3
  | .property => 3

/-- Whether it is a mere mention after a space. -/
def isGuarded : Directive → Bool
  | .property => false
  | _ => true

/-- The line split where the directive first occurs, mentions left out.
    `previous` is the character before the line, if there is one. -/
def occurrence? (d : Directive) (line : List Char) (previous : Option Char := none) :
    Option (List Char × List Char) :=
  match line with
  | [] => none
  | c :: rest =>
    if d.command.toList.isPrefixOf (c :: rest) ∧ ¬ (d.isGuarded ∧ previous = some ' ') then
      some ([], c :: rest)
    else (d.occurrence? rest (some c)).map fun (before, found) => (c :: before, found)

/-- Where the directive first occurs in a line, in bytes. -/
def offset? (d : Directive) (line : List Char) : Option Nat :=
  (d.occurrence? line).map fun (before, _) => utf8Size before

/-- The directive that a line belongs to, and the line split where it occurs. -/
def classify (line : List Char) : Option (Directive × List Char × List Char) :=
  all.findSome? fun d => (d.occurrence? line).map (d, ·)

end Directive

/-- What the body of a document starts with. -/
def bodyMarker : String := "\\begin\x7bdocument\x7d"

/-- Whether the body of the document starts in a line. -/
def startsBody (line : List Char) : Bool :=
  occursIn bodyMarker.toList line

end PaperGraph
