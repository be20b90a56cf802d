import PaperGraph.Text.Search

/-!
# The vocabulary of scientific contributions

The IRIs that knowledge stores use to describe contributions. All predicates
lie in one namespace, `terms`; what is published anew lies in another,
`publications`.

* `Vocabulary.type`: says of what kind a contribution is;
* `Vocabulary.compact`: a predicate for the reader's eye.
-/

namespace PaperGraph.Vocabulary

open Text

/-- The namespace of the predicates. -/
def terms : String := "https://example.org/scikg/terms/"

/-- The namespace of the publications. -/
def publications : String := "https://example.org/scikg/publications/"

/-- The predicate of that local name. -/
def term (name : String) : String := terms ++ name

/-- The kind of a contribution. -/
def type : String := term "type"

/-- Relates a publication with what it contributes. -/
def hasContribution : String := term "has_contribution"

/-- The wording of a definition. -/
def definitionContent : String := term "definition_content"

/-- The name of a dataset. -/
def datasetName : String := term "dataset_name"

/-- The domain of a dataset. -/
def datasetDomain : String := term "dataset_domain"

/-- The description of a dataset. -/
def datasetDescription : String := term "dataset_description"

/-- Where a dataset is found. -/
def datasetUrl : String := term "dataset_url"

/-- Where the image of a figure is found. -/
def figureUrl : String := term "figure_url"

/-- The media type of a figure. -/
def figureMime : String := term "figure_mime"

/-- The description of a figure. -/
def figureDescription : String := term "figure_description"

/-- The description of an experiment. -/
def expResultDescription : String := term "expresult_description"

/-- The result of an experiment. -/
def expResultResult : String := term "expresult_result"

/-- The sample size of an experiment. -/
def expResultSampleSize : String := term "expresult_samplesize"

/-- The name of a piece of software. -/
def softwareName : String := term "software_name"

/-- The description of a piece of software. -/
def softwareDescription : String := term "software_description"

/-- Where a piece of software is found. -/
def softwareUrl : String := term "software_url"

/-- The object of a property whose reference could not be resolved. -/
def unresolvedObject : String := "<object>"

/-- An IRI with the namespace of the predicates shortened to `terms:`. -/
def compact (iri : String) : String :=
  match stripStart? terms.toList iri.toList with
  | some name => "terms:" ++ String.ofList name
  | none => iri

end PaperGraph.Vocabulary
