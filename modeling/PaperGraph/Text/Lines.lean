import PaperGraph.Text.Search

/-!
# Lines

A line ends at a newline, which it keeps: `inclusiveLines` cuts a text and
loses nothing (`inclusiveLines_flatten`). `lines` drops the line ends, a
carriage return before the newline included.
-/

namespace PaperGraph.Text

/-- The lines of a text, each with its newline. The last one may lack it. -/
def inclusiveLines : List Char → List (List Char)
  | [] => []
  | c :: cs =>
    if c = '\n' then [c] :: inclusiveLines cs
    else match inclusiveLines cs with
      | [] => [[c]]
      | line :: lines => (c :: line) :: lines

/-- How a line ends: a newline, a carriage return and a newline, or neither. -/
def lineEnding (line : List Char) : List Char :=
  if (stripEnd? ['\r', '\n'] line).isSome then ['\r', '\n']
  else if (stripEnd? ['\n'] line).isSome then ['\n']
  else []

/-- A line without its ending. -/
def stripLineEnding (line : List Char) : List Char :=
  line.take (line.length - (lineEnding line).length)

/-- The lines of a text without their endings. -/
def lines (text : List Char) : List (List Char) :=
  (inclusiveLines text).map stripLineEnding

/-- Cutting into lines loses nothing. -/
@[simp]
theorem inclusiveLines_flatten (cs : List Char) : (inclusiveLines cs).flatten = cs := by
  induction cs with
  | nil => rfl
  | cons c cs ih =>
    simp only [inclusiveLines]
    split
    · simp [ih]
    · split
      · next h => simp [h] at ih; simp [← ih]
      · next h => simp [h] at ih; simp [← ih]

end PaperGraph.Text
