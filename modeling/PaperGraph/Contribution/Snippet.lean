import PaperGraph.Contribution.Kind

/-!
# Snippets

An imported contribution stands in the paper as a snippet of LaTeX: an
environment framed by two comments. A value that is not known leaves its place
empty, and the snippet has no newline at its end.
-/

namespace PaperGraph

/-- What is known of a contribution: values of predicates. -/
abbrev Facts := List (String × String)

/-- The value of a predicate, or the empty text. -/
def Facts.valueOf (facts : Facts) (predicate : String) : String :=
  (facts.lookup predicate).getD ""

namespace Snippet

/-- The lines of an environment between the comments that tell what was
    imported. -/
def framed (name : String) (body : List String) : String :=
  Latex.lines (["% RDFtex " ++ name ++ " Import Start"] ++ body ++
    ["% RDFtex " ++ name ++ " Import End"])

/-- The reference to the publication that a contribution was taken from. -/
def cited (key : String) : String :=
  "~" ++ Latex.command "cite" key

/-- The snippet for a contribution, to be known in the paper by `label` and
    taken from the publication cited by `key`. -/
def render (kind : Kind) (facts : Facts) (label key : String) : String :=
  let value := facts.valueOf
  let labelled := Latex.command "label" label
  framed kind.name <| match kind with
  | .definition =>
    [Latex.command "begin" "definition",
      labelled,
      value Vocabulary.definitionContent ++ "\\normalfont" ++ Latex.braced (cited key),
      Latex.command "end" "definition"]
  | .dataset =>
    [Latex.command "begin" "dataset",
      value Vocabulary.datasetName ++ cited key ++ "\\\\",
      "Available at: " ++ Latex.command "url" (value Vocabulary.datasetUrl) ++ "\\\\",
      "Domain: " ++ value Vocabulary.datasetDomain ++ "\\\\",
      "Description: ``" ++ value Vocabulary.datasetDescription ++ "\"" ++ cited key,
      labelled,
      Latex.command "end" "dataset"]
  | .figure =>
    [Latex.command "begin" "figure" ++ "[htb!]",
      "\\centering",
      Latex.command "includegraphics[max width=0.7\\columnwidth]" (value Vocabulary.figureUrl),
      Latex.command "caption" (value Vocabulary.figureDescription ++
        " (Figure and caption adopted from" ++ cited key ++ ".)"),
      labelled,
      Latex.command "end" "figure"]
  | .expResult =>
    [Latex.command "begin" "expresult",
      value Vocabulary.expResultDescription ++ cited key ++ "\\\\",
      "Result: " ++ value Vocabulary.expResultResult ++ "\\\\",
      "Sample size: " ++ value Vocabulary.expResultSampleSize,
      labelled,
      Latex.command "end" "expresult"]
  | .software =>
    [Latex.command "begin" "software",
      value Vocabulary.softwareName ++ cited key ++ "\\\\",
      "Available at: " ++ Latex.command "url" (value Vocabulary.softwareUrl) ++ "\\\\",
      "Description: ``" ++ value Vocabulary.softwareDescription ++ "\"" ++ cited key,
      labelled,
      Latex.command "end" "software"]

end Snippet

end PaperGraph
