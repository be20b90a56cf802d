import PaperGraph.Diagnostic
import PaperGraph.Export.Record

/-!
# Validation of exports

Only complete contributions are published. A record is accepted if it tells a
kind and states exactly the predicates that this kind requires; otherwise it is
rejected for a reason, and the author is warned.

* `Record.validate`: the contribution that a record stands for, or the reason
  why it stands for none;
* `Exports.validate`: all records, sorted into accepted and rejected.
-/

namespace PaperGraph

/-- A complete contribution to be published. -/
structure Contribution where
  /-- The name of its record. -/
  name : String
  /-- Its kind. -/
  kind : Kind
  /-- All pairs of its record, repetitions included. -/
  pairs : Facts
deriving DecidableEq, Repr, Inhabited

/-- Why a record stands for no contribution. -/
inductive Rejection where
  /-- It does not tell its kind. -/
  | untyped
  /-- What it tells for its kind is none. -/
  | unsupported (kind : String)
  /-- Its predicates are not those required. Missing ones are listed; what it
      states in excess is not. -/
  | mismatch (missing : List String)
deriving DecidableEq, Repr

/-- The warning that a record is rejected. -/
def Rejection.warning (name : String) : Rejection → Diagnostic
  | .untyped =>
    { severity := .warning
      code := "rdftex::export::untyped"
      message := "Export of " ++ name ++ " is skipped because it has no type"
      help := some ("Declare the export with \\rdfexport\x7bname\x7d\x7bType\x7d\x7b...\x7d") }
  | .unsupported kind =>
    { severity := .warning
      code := "rdftex::export::unsupported-type"
      message := "Export of " ++ name ++ " is skipped due to unsupported type '" ++ kind ++ "'"
      help := some ("Supported types: " ++ ", ".intercalate (Kind.all.map Kind.name)) }
  | .mismatch missing =>
    { severity := .warning
      code := "rdftex::export::incomplete"
      message := "Export of " ++ name ++ " is skipped due to missing predicates: " ++
        ", ".intercalate (missing.map Vocabulary.compact) }

/-- The contribution that a record stands for, or why it stands for none. -/
def Record.validate (r : Record) : Except Rejection Contribution :=
  let flat := r.pairs.flatten
  match flat.lookup Vocabulary.type with
  | none => .error .untyped
  | some name =>
    match Kind.ofName? name with
    | none => .error (.unsupported name)
    | some kind =>
      let present := flat.map (·.1)
      if (∀ p ∈ kind.required, p ∈ present) ∧ (∀ p ∈ present, p ∈ kind.required) then
        .ok { name := r.name, kind, pairs := r.pairs }
      else .error (.mismatch (kind.missing present))

/-- The records of a run, sorted by whether they can be published. -/
structure Validation where
  /-- The complete contributions. -/
  accepted : List Contribution := []
  /-- The names of the other records, with the reasons. -/
  rejected : List (String × Rejection) := []
  /-- What the author is told about those. -/
  diagnostics : Diagnostics := []
deriving DecidableEq, Repr, Inhabited

/-- All records validated, in their order. -/
def Exports.validate : Exports → Validation
  | [] => {}
  | r :: rest =>
    let v := validate rest
    match r.validate with
    | .ok contribution => { v with accepted := contribution :: v.accepted }
    | .error rejection =>
      { v with
        rejected := (r.name, rejection) :: v.rejected
        diagnostics := rejection.warning r.name :: v.diagnostics }

end PaperGraph
