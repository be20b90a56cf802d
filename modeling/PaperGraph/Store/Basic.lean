import PaperGraph.Contribution.Snippet

/-!
# Requests to a knowledge store

An import asks a knowledge store for a contribution, by its IRI, and gets a
snippet for the paper, or a fault that tells why there is none. No fault ends a
run.

* `Request`, `Resolution`, `ResolveFault`: what is asked and answered;
* `sameStoreName`: names of stores are compared without regard to case.
-/

namespace PaperGraph

/-- What an import asks for. -/
structure Request where
  /-- The IRI of the contribution. -/
  iri : String
  /-- The label that it shall have in the paper. -/
  label : String
  /-- The key by which its publication is cited. -/
  key : String
  /-- The name of the store that is asked. -/
  store : String
deriving DecidableEq, Repr, Inhabited

/-- What an import gets. -/
structure Resolution where
  /-- The LaTeX of the contribution, without a newline at its end. -/
  snippet : String
  /-- Its kind. -/
  kind : Kind
deriving DecidableEq, Repr, Inhabited

/-- Why an import gets nothing. -/
inductive ResolveFault where
  /-- The store says nothing of the IRI. -/
  | unknownContent (iri : String)
  /-- Not exactly one statement tells the kind. -/
  | classification (iri : String) (found : Nat)
  /-- What is told for the kind is none. -/
  | unsupportedKind (iri : String) (found : String)
  /-- Required predicates are missing. -/
  | incomplete (iri : String) (missing : List String)
  /-- There is no file for the image of a figure. -/
  | missingMedia (url : String)
  /-- Another store is asked than the one there is. -/
  | otherStore (requested available : String)
  /-- The store took too long, in milliseconds. -/
  | timeout (iri : String) (limit : Nat)
  /-- The store cannot be asked. -/
  | unavailable (reason : String)
deriving DecidableEq, Repr

/-- The wording of a fault. -/
def ResolveFault.message : ResolveFault → String
  | .unknownContent iri => "no triples reachable from " ++ iri
  | .classification iri found =>
    iri ++ " is not classified: expected exactly one type triple, found " ++ toString found
  | .unsupportedKind iri found => iri ++ " has unsupported type '" ++ found ++ "'"
  | .incomplete iri missing =>
    iri ++ " is incomplete, missing: " ++ ", ".intercalate (missing.map Vocabulary.compact)
  | .missingMedia url => "no local media file matches '" ++ url ++ "'"
  | .otherStore requested available =>
    "backend '" ++ requested ++ "' is not available (configured: " ++ available ++ ")"
  | .timeout iri limit => "resolving " ++ iri ++ " timed out after " ++ toString limit ++ "ms"
  | .unavailable reason => "knowledge store unavailable: " ++ reason

/-- What a store answers. -/
abbrev Answer := Except ResolveFault Resolution

/-- A knowledge store: its name and what it answers to a request. -/
structure Store where
  /-- The name by which imports ask for it. -/
  name : String
  /-- What it answers, however long it takes. -/
  answer : Request → Answer

/-- Whether two names are the same but for the case of the letters A to Z. -/
def sameStoreName (a b : String) : Bool :=
  a.toList.map Char.toLower = b.toList.map Char.toLower

end PaperGraph
