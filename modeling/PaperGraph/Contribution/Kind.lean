import PaperGraph.Contribution.Latex
import PaperGraph.Contribution.Vocabulary

/-!
# Kinds of contributions

A contribution is of one of five kinds. Its kind fixes what has to be known of
it (`Kind.required`), and what the preamble of a paper has to define before the
contribution can be shown there (`Kind.environment?`).

* `Kind.all`: the kinds in their order;
* `Kind.ofName?`, `Kind.name`: kinds by their names in a knowledge store;
* `Kind.adjoin`: a list of kinds, in their order and each once, with one more.
-/

namespace PaperGraph

/-- The kinds of contributions. -/
inductive Kind where
  /-- The definition of a notion. -/
  | definition
  /-- A collection of data. -/
  | dataset
  /-- An image with its caption. -/
  | figure
  /-- The result of an experiment. -/
  | expResult
  /-- A program. -/
  | software
deriving DecidableEq, Repr, Inhabited

namespace Kind

/-- The kinds in their order. -/
def all : List Kind :=
  [.definition, .dataset, .figure, .expResult, .software]

/-- The name of a kind in a knowledge store. -/
def name : Kind → String
  | .definition => "Definition"
  | .dataset => "Dataset"
  | .figure => "Figure"
  | .expResult => "ExpResult"
  | .software => "Software"

/-- The kind of that name. -/
def ofName? (name : String) : Option Kind :=
  all.find? (·.name = name)

/-- The place of a kind in the order. -/
def index (k : Kind) : Nat :=
  all.idxOf k

/-- The predicates that have to be known of a contribution of this kind. -/
def required : Kind → List String
  | .definition => [Vocabulary.type, Vocabulary.definitionContent]
  | .dataset =>
    [Vocabulary.type, Vocabulary.datasetName, Vocabulary.datasetDomain,
      Vocabulary.datasetDescription, Vocabulary.datasetUrl]
  | .figure =>
    [Vocabulary.type, Vocabulary.figureUrl, Vocabulary.figureMime,
      Vocabulary.figureDescription]
  | .expResult =>
    [Vocabulary.type, Vocabulary.expResultDescription, Vocabulary.expResultResult,
      Vocabulary.expResultSampleSize]
  | .software =>
    [Vocabulary.type, Vocabulary.softwareName, Vocabulary.softwareDescription,
      Vocabulary.softwareUrl]

/-- The required predicates in the order of their texts. -/
def requiredSorted (k : Kind) : List String :=
  k.required.mergeSort fun a b => decide (a ≤ b)

/-- The required predicates that are not among those present, in the order of
    their texts. -/
def missing (k : Kind) (present : List String) : List String :=
  k.requiredSorted.filter (· ∉ present)

/-- The environment of a counted contribution: `env` is its LaTeX name, `font`
    the command for its heading, and `title` and `titles` its names in cross
    references. -/
def countedEnvironment (env font heading title titles : String) : String :=
  Latex.block
    [Latex.command "newcounter" env ++ "[section]",
      Latex.command "newenvironment" env ++ "[1][]" ++
        Latex.braced (Latex.command "refstepcounter" env ++ "\\par\\medskip\n" ++
          Latex.command font (heading ++ "~\\the" ++ env ++ ". #1") ++ " \\rmfamily") ++
        Latex.braced "\\medskip",
      "",
      Latex.command "crefname" env ++ Latex.braced title ++ Latex.braced titles,
      Latex.command "Crefname" env ++ Latex.braced title ++ Latex.braced titles]

/-- What the preamble has to define for this kind. Definitions are shown in an
    environment of the document class. -/
def environment? : Kind → Option String
  | .definition => none
  | .dataset =>
    some (countedEnvironment "dataset" "textbf" "Dataset" "Dataset" "Datasets")
  | .figure => some (Latex.block ["\\usepackage[export]" ++ Latex.braced "adjustbox"])
  | .expResult =>
    some (countedEnvironment "expresult" "textit" "Experimental Result" "Experimental Result"
      "Experimental Results")
  | .software =>
    some (countedEnvironment "software" "textbf" "Software" "Software" "Software")

/-- Kinds in their order and each once, with `k` among them. -/
def adjoin (k : Kind) (kinds : List Kind) : List Kind :=
  all.filter fun x => x = k || x ∈ kinds

/-- The environments of some kinds, in the order of the kinds. -/
def environments (kinds : List Kind) : List (Kind × String) :=
  (all.filter (· ∈ kinds)).filterMap fun k => k.environment?.map (k, ·)

end Kind

end PaperGraph
