import PaperGraph.Yaml.Gap

/-!
# Plain scalars

A plain scalar is a text without quotes. It ends before a colon at the end of a
word, before a comment, before a mark of a document, and before a line that is
indented less than it has to be. In flow collections it also ends before a
comma, a bracket or a brace, and there indentation does not matter.
-/

namespace PaperGraph.Yaml

/-- The characters that structure flow collections. -/
def isFlowIndicator (c : Char) : Bool :=
  c = ',' || c = '[' || c = ']' || c = '\x7b' || c = '\x7d'

/-- Whether a plain scalar ends before its next word. -/
def endsBeforeWord (flow : Bool) (margin : Nat) (s : Spot) (rest : List Spot) : Bool :=
  s.char = '#' || (! flow && s.column < margin) || atMarker (s :: rest)

/-- Whether a plain scalar ends within its word. -/
def endsInWord (flow : Bool) (c : Char) (rest : List Spot) : Bool :=
  (c = ':' && atWordEnd rest) || (flow && isFlowIndicator c)

/-- Whether a colon stands where a flow collection does not allow it. -/
def hasStrayColon (flow : Bool) (c : Char) (rest : List Spot) : Bool :=
  flow && c = ':' && nextIs (fun d => d = '?' || isFlowIndicator d) rest

/-- The text of a plain scalar after some gap, the gap at its end, which is not
    part of it, and what is left. Lines have to reach `margin`. -/
def readPlain (flow : Bool) (margin : Nat) (gap : Gap) :
    List Spot → Option (List Char × Gap × List Spot)
  | [] => some ([], gap, [])
  | s :: rest =>
    if isGap s.char ∨ isBreak s.char then
      if gap.isFolded ∧ s.char = '\t' ∧ s.column < margin then none
      else readPlain flow margin (gap.add s.char) rest
    else if gap ≠ Gap.none ∧ endsBeforeWord flow margin s rest then some ([], gap, s :: rest)
    else if hasStrayColon flow s.char rest then none
    else if endsInWord flow s.char rest then some ([], gap, s :: rest)
    else (readPlain flow margin Gap.none rest).map fun (text, ending, left) =>
      (gap.text ++ s.char :: text, ending, left)

end PaperGraph.Yaml
