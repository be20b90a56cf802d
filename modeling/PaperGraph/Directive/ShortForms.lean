import PaperGraph.Text.Dictionary
import PaperGraph.Text.Search

/-!
# Short forms

A paper declares short forms: tokens that stand, with a colon after them, for
the start of an IRI. Short forms are resolved in the arguments of directives
before anything else is done with these, token by token in the order of the
dictionary; what one token brings in is seen by the later ones.
-/

namespace PaperGraph.ShortForms

open Text

/-- A text with one token resolved, wherever a colon follows it. -/
def resolveToken (text : List Char) (form : String × String) : List Char :=
  replaceAll (form.1.toList ++ [':']) form.2.toList text

/-- A text with all tokens resolved. -/
def resolve (forms : Dictionary) (text : List Char) : List Char :=
  forms.entries.foldl resolveToken text

end PaperGraph.ShortForms
