/-!
# Pieces of LaTeX

What the snippets and environments are made of: arguments in braces, commands,
the two ends of an environment, and lines joined by newlines.
-/

namespace PaperGraph.Latex

/-- A text in braces. -/
def braced (text : String) : String :=
  "\x7b" ++ text ++ "\x7d"

/-- A command with its argument. -/
def command (name argument : String) : String :=
  "\\" ++ name ++ braced argument

/-- Lines joined by newlines; the last one has none. -/
def lines (ls : List String) : String :=
  "\n".intercalate ls

/-- Lines each closed by a newline. -/
def block (ls : List String) : String :=
  String.join (ls.map (· ++ "\n"))

end PaperGraph.Latex
