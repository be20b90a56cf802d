import PaperGraph.Yaml.Spot

/-!
# Gaps

A gap between two words of a scalar is made of blanks or of line ends. Blanks
stay what they are; a single line end becomes a space, and of several ones the
first is dropped (`Gap.text`). Blanks around line ends are dropped too.
-/

namespace PaperGraph.Yaml

/-- What stands between two words. -/
inductive Gap where
  /-- Blanks on one line. -/
  | blanks (cs : List Char)
  /-- The ends of lines. The first one is missing if it was escaped. -/
  | breaks (first : Option Char) (more : List Char)
deriving DecidableEq, Repr

namespace Gap

/-- No gap. -/
def none : Gap := .blanks []

/-- A gap with one more blank or line end. -/
def add (g : Gap) (c : Char) : Gap :=
  match g, isBreak c with
  | .blanks _, true => .breaks (some c) []
  | .breaks first more, true => .breaks first (more ++ [c])
  | .blanks cs, false => .blanks (cs ++ [c])
  | .breaks first more, false => .breaks first more

/-- Whether the gap goes over a line end. -/
def isFolded : Gap → Bool
  | .blanks _ => false
  | .breaks .. => true

/-- What a gap leaves in the scalar. -/
def text : Gap → List Char
  | .blanks cs => cs
  | .breaks (some '\n') [] => [' ']
  | .breaks (some '\n') more => more
  | .breaks first more => first.toList ++ more

end Gap

end PaperGraph.Yaml
