import PaperGraph.Files.Path

/-!
# Wording

How counts, paths and steps of work are shown to the user.
-/

namespace PaperGraph

/-- A count with the name of what is counted. -/
def plural (n : Nat) (one many : String) : String :=
  toString n ++ " " ++ (if n = 1 then one else many)

/-- A path as it is shown: without the working directory, if it lies there. -/
def Path.display (p workingDirectory : Path) : String :=
  match p.relativeTo? workingDirectory with
  | some ⟨""⟩ => "."
  | some relative => relative.text
  | none => p.text

/-- The column in which the words for steps of work end. -/
def statusWidth : Nat := 12

/-- A line that tells a step of work: a word, and what it is done to. -/
def statusLine (word message : String) : String :=
  String.ofList (List.replicate (statusWidth - word.length) ' ') ++ word ++ " " ++ message ++ "\n"

end PaperGraph
