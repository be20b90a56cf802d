import PaperGraph.Files.Path

/-!
# Diagnostics

What a run tells the author of a paper without giving up: warnings and errors,
each with a code for programs, a message for people, and, where they are known,
some help and the line it is about.

* `Diagnostic.format`: a diagnostic as it is printed;
* `Diagnostics.withCode`, `Diagnostics.errorCount`, `Diagnostics.warningCount`:
  views of a list of diagnostics.
-/

namespace PaperGraph

/-- How grave a diagnostic is. -/
inductive Severity where
  /-- Something was left out. -/
  | warning
  /-- Something is wrong with the paper. -/
  | error
deriving DecidableEq, Repr, Inhabited

/-- The word for a severity. -/
def Severity.word : Severity → String
  | .warning => "warning"
  | .error => "error"

/-- A line of a file. -/
structure Place where
  /-- The file. -/
  path : Path
  /-- The number of the line, the first being 1. -/
  line : Nat
deriving DecidableEq, Repr, Inhabited

/-- Something to tell the author. -/
structure Diagnostic where
  /-- How grave it is. -/
  severity : Severity
  /-- Its code. -/
  code : String
  /-- What is the matter. -/
  message : String
  /-- What can be done. -/
  help : Option String := none
  /-- Where it is. -/
  place : Option Place := none
deriving DecidableEq, Repr, Inhabited

namespace Diagnostic

/-- A diagnostic as it is printed: what is the matter, where, and what can be
    done, on a line each. -/
def format (d : Diagnostic) : String :=
  d.severity.word ++ "[" ++ d.code ++ "]: " ++ d.message ++ "\n" ++
    (match d.place with
      | some place => "  --> " ++ place.path.text ++ ":" ++ toString place.line ++ "\n"
      | none => "") ++
    (match d.help with
      | some help => "  help: " ++ help ++ "\n"
      | none => "")

end Diagnostic

/-- Diagnostics in the order in which they arose. -/
abbrev Diagnostics := List Diagnostic

namespace Diagnostics

/-- The diagnostics with a code. -/
def withCode (ds : Diagnostics) (code : String) : Diagnostics :=
  ds.filter (·.code = code)

/-- The number of errors. -/
def errorCount (ds : Diagnostics) : Nat :=
  ds.countP (·.severity = .error)

/-- The number of warnings. -/
def warningCount (ds : Diagnostics) : Nat :=
  ds.countP (·.severity = .warning)

/-- Whether there is an error. -/
def hasErrors (ds : Diagnostics) : Bool :=
  ds.any (·.severity = .error)

/-- Whether there is a warning. -/
def hasWarnings (ds : Diagnostics) : Bool :=
  ds.any (·.severity = .warning)

end Diagnostics

end PaperGraph
