import PaperGraph.Files.Fault
import PaperGraph.Files.Path
import PaperGraph.Graph.NTriples

/-!
# Failures

A failure ends a run, unlike a diagnostic, which is told to the author while
the run goes on. Each has a message, a code, and some help where something can
be done about it.
-/

namespace PaperGraph

/-- What was to be done with a file or a directory. -/
inductive FileAction where
  /-- Reading a paper. -/
  | readSource
  /-- Reading a knowledge store. -/
  | readStore
  /-- Reading a manifest. -/
  | readManifest
  /-- Writing a manifest. -/
  | writeManifest
  /-- Making the directory of an output. -/
  | createOutputDirectory
  /-- Writing an output. -/
  | writeOutput
  /-- Making the directory of a publication. -/
  | createExportDirectory
  /-- Writing a publication. -/
  | writeExport
deriving DecidableEq, Repr, Inhabited

/-- The complaint that an action failed. -/
def FileAction.complaint : FileAction → String
  | .readSource => "Failed to read source"
  | .readStore => "Failed to read knowledge store"
  | .readManifest => "Failed to read manifest"
  | .writeManifest => "Failed to write manifest"
  | .createOutputDirectory => "Failed to create output directory"
  | .writeOutput => "Failed to write output"
  | .createExportDirectory => "Failed to create export directory"
  | .writeExport => "Failed to write export document"

/-- Why a run is given up. -/
inductive Failure where
  /-- A file or a directory can be neither read nor written. -/
  | file (path : Path) (action : FileAction) (fault : FileFault)
  /-- The knowledge store is no list of statements. -/
  | badStore (path : Path) (fault : NTriples.Fault)
  /-- The manifest is malformed. -/
  | badManifest
  /-- There is a manifest already. -/
  | manifestExists
  /-- There is no backend of that name. -/
  | unsupportedBackend (name : String)
  /-- Not exactly one paper has a document body. Those that do are listed. -/
  | noSingleRoot (candidates : List Path)
  /-- An item in a list of pairs has no equality sign. -/
  | malformedPair (path : Path) (line : Nat) (item : String)
  /-- A check found something. -/
  | checkFailed (count : Nat)
deriving DecidableEq, Repr

namespace Failure

/-- The name of the file that describes a project. -/
def manifestName : String := "rdftex.yaml"

/-- What is told of a failure. -/
def message : Failure → String
  | .file path action fault =>
    "IO error with " ++ path.text ++ ": " ++ action.complaint ++ ": " ++ fault.message
  | .badStore path fault => "Parse error: " ++ path.text ++ ": " ++ fault.message
  | .badManifest => "Configuration error: Invalid manifest"
  | .manifestExists => "Configuration error: " ++ manifestName ++ " already exists"
  | .unsupportedBackend name => "Unsupported knowledge-store backend '" ++ name ++ "'"
  | .noSingleRoot candidates =>
    "Expected exactly one root file containing \\begin\x7bdocument\x7d, found " ++
      toString candidates.length
  | .malformedPair path line item =>
    path.text ++ ":" ++ toString line ++ ": malformed export pair '" ++ item ++ "'"
  | .checkFailed count => "Check failed with " ++ toString count ++ " error(s)"

/-- The code of a failure. -/
def code : Failure → String
  | .file .. => "rdftex::io"
  | .badStore .. => "rdftex::parse"
  | .badManifest => "rdftex::config"
  | .manifestExists => "rdftex::config"
  | .unsupportedBackend _ => "rdftex::backend"
  | .noSingleRoot _ => "rdftex::root"
  | .malformedPair .. => "rdftex::export::pair"
  | .checkFailed _ => "rdftex::check"

/-- What can be done about a failure. -/
def help? : Failure → Option String
  | .file .. => none
  | .badStore .. => some "The MinSKG store must be an N-Triples document"
  | .badManifest => some ("Check " ++ manifestName ++ " syntax")
  | .manifestExists => some "Use --force to overwrite"
  | .unsupportedBackend _ => some "Currently only the MinSKG backend is supported"
  | .noSingleRoot [] => some "Add \\begin\x7bdocument\x7d to the main document"
  | .noSingleRoot (_ :: _) => some "Only the main document may contain \\begin\x7bdocument\x7d"
  | .malformedPair .. => some "Export pairs are written as predicate=object, separated by commas"
  | .checkFailed _ => some "Run with -v for details on each directive"

end Failure

end PaperGraph
