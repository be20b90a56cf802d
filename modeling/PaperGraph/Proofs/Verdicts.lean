import Mathlib.Data.List.Forall2
import PaperGraph.Export.Validation
import PaperGraph.Proofs.Flattening
import PaperGraph.Proofs.Unrelated

/-!
# Verdicts on exports

A record is judged by two things only: what its last pair on the kind tells, and which
predicates it states. `Record.Verdict` says so in terms of the pairs as they were
collected, without flattening them. Three things can be wrong, and the first one that
is decides:

* no pair tells the kind;
* what the last such pair tells is none;
* the predicates are not those that the kind requires.

`Record.validate_eq_iff_verdict` says that records are judged so. The records of a run
are judged one by one and sorted by the verdicts on them, and the author is warned of
every one that is rejected (`Exports.validate_isSortedInto`).
-/

namespace PaperGraph

namespace Record

/-- The predicates that the record states. -/
def predicates (r : Record) : List String :=
  r.pairs.map (·.1)

/-- The last pair that tells the kind of the contribution has this object. -/
def TellsKind (r : Record) (name : String) : Prop :=
  ∃ front back, r.pairs = front ++ (Vocabulary.type, name) :: back ∧
    ∀ pair ∈ back, pair.1 ≠ Vocabulary.type

/-- The record states what the kind requires, and nothing else. -/
def States (r : Record) (kind : Kind) : Prop :=
  ∀ p, p ∈ r.predicates ↔ p ∈ kind.required

/-- How a record has to be judged. What it states in excess is never listed, so that
    nothing may be missing of a record that is rejected for its predicates. -/
inductive Verdict (r : Record) : Except Rejection Contribution → Prop where
  | untyped : Vocabulary.type ∉ r.predicates → r.Verdict (.error .untyped)
  | unsupported {name : String} : r.TellsKind name → (∀ kind : Kind, kind.name ≠ name) →
      r.Verdict (.error (.unsupported name))
  | mismatch {kind : Kind} {missing : List String} : r.TellsKind kind.name → ¬ r.States kind →
      kind.Lacks r.predicates missing → r.Verdict (.error (.mismatch missing))
  | accepted {kind : Kind} : r.TellsKind kind.name → r.States kind →
      r.Verdict (.ok { name := r.name, kind, pairs := r.pairs })

variable {r : Record} {name : String} {kind : Kind} {verdict : Except Rejection Contribution}

/-! ## Flattened pairs -/

/-- Flattening keeps of the pairs on the kind what the last one tells. -/
theorem tellsKind_iff : r.TellsKind name ↔ r.pairs.flatten.lookup Vocabulary.type = some name :=
  Facts.tellsLast_iff_lookup

theorem type_mem_predicates_iff :
    Vocabulary.type ∈ r.predicates ↔ ∃ name, r.TellsKind name := by
  simp only [tellsKind_iff]
  exact Facts.exists_lookup_flatten_iff.symm

theorem states_iff : r.States kind ↔
    (∀ p ∈ kind.required, p ∈ r.pairs.flatten.map (·.1)) ∧
      ∀ p ∈ r.pairs.flatten.map (·.1), p ∈ kind.required := by
  simp only [Facts.mem_keys_flatten]
  exact ⟨fun h => ⟨fun p => (h p).2, fun p => (h p).1⟩, fun ⟨h, h'⟩ p => ⟨h' p, h p⟩⟩

/-! ## One record -/

theorem Verdict.validate_eq (h : r.Verdict verdict) : r.validate = verdict := by
  cases h with
  | untyped h =>
    have hnone : r.pairs.flatten.lookup Vocabulary.type = none := by
      rw [Option.eq_none_iff_forall_ne_some]
      exact fun name hname => h (type_mem_predicates_iff.2 ⟨name, tellsKind_iff.2 hname⟩)
    rw [validate, hnone]
  | unsupported hname hkind =>
    simp only [validate, tellsKind_iff.1 hname, Kind.ofName?_eq_none_iff.2 hkind]
  | mismatch hname hstates hmissing =>
    -- What is missing of the flattened pairs is missing of all pairs.
    have hflat := hmissing.congr fun p => Facts.mem_keys_flatten.symm
    simp only [validate, tellsKind_iff.1 hname, Kind.ofName?_name]
    rw [if_neg fun h => hstates (states_iff.2 h), Kind.lacks_iff.1 hflat]
  | accepted hname hstates =>
    simp only [validate, tellsKind_iff.1 hname, Kind.ofName?_name]
    rw [if_pos (states_iff.1 hstates)]

theorem exists_verdict (r : Record) : ∃ verdict, r.Verdict verdict := by
  by_cases htype : Vocabulary.type ∈ r.predicates
  · obtain ⟨name, hname⟩ := type_mem_predicates_iff.1 htype
    cases hkind : Kind.ofName? name with
    | none => exact ⟨_, .unsupported hname (Kind.ofName?_eq_none_iff.1 hkind)⟩
    | some kind =>
      obtain rfl := Kind.ofName?_eq_some_iff.1 hkind
      by_cases hstates : r.States kind
      · exact ⟨_, .accepted hname hstates⟩
      · exact ⟨_, .mismatch hname hstates (Kind.lacks_missing kind r.predicates)⟩
  · exact ⟨_, .untyped htype⟩

/-- One verdict holds of every record, and it is judged so. -/
theorem validate_eq_iff_verdict : r.validate = verdict ↔ r.Verdict verdict := by
  constructor
  · rintro rfl
    obtain ⟨verdict, h⟩ := r.exists_verdict
    rwa [h.validate_eq]
  · exact Verdict.validate_eq

end Record

/-! ## All records -/

/-- The validation has every record in one of its two lists, by the verdict on it, and a
    warning for everyone that is rejected. -/
structure Exports.IsSortedInto (exports : Exports) (v : Validation) : Prop where
  /-- The two lists, each in the order of the records, make up all verdicts. -/
  sorted : Interleaving (v.accepted.map fun c => (c.name, Except.ok c))
    (v.rejected.map fun rejected => (rejected.1, Except.error rejected.2))
    (exports.map fun r => (r.name, r.validate))
  /-- The warnings stand in the order of the rejected records, and name them. -/
  warned : v.rejected.Forall₂ (fun rejected d => d = rejected.2.warning rejected.1 ∧
    d.severity = .warning ∧
      ("Export of " ++ rejected.1 ++ " is skipped").toList <+: d.message.toList) v.diagnostics

theorem Exports.sorted_validate (exports : Exports) :
    Interleaving (exports.validate.accepted.map fun c => (c.name, Except.ok c))
      (exports.validate.rejected.map fun rejected => (rejected.1, Except.error rejected.2))
      (exports.map fun r => (r.name, r.validate)) := by
  induction exports with
  | nil => exact .nil
  | cons r rest ih =>
    rw [validate, List.map_cons]
    cases hr : r.validate with
    | error rejection => exact .second ih
    | ok c =>
      have hname : c.name = r.name := by
        cases Record.validate_eq_iff_verdict.1 hr
        rfl
      rw [List.map_cons, hname]
      exact .first ih

/-- Every warning starts with the name of the record that it is about. -/
theorem Rejection.warning_names (name : String) (rejection : Rejection) :
    (rejection.warning name).severity = .warning ∧
      ("Export of " ++ name ++ " is skipped").toList <+:
        (rejection.warning name).message.toList := by
  cases rejection with
  | untyped =>
    exact ⟨rfl, " because it has no type".toList, by simp [warning]⟩
  | unsupported kind =>
    exact ⟨rfl, (" due to unsupported type '" ++ kind ++ "'").toList, by simp [warning]⟩
  | mismatch missing =>
    exact ⟨rfl, (" due to missing predicates: " ++
      ", ".intercalate (missing.map Vocabulary.compact)).toList, by simp [warning]⟩

theorem Exports.warned_validate (exports : Exports) :
    exports.validate.rejected.Forall₂ (fun rejected d => d = rejected.2.warning rejected.1 ∧
      d.severity = .warning ∧
        ("Export of " ++ rejected.1 ++ " is skipped").toList <+: d.message.toList)
      exports.validate.diagnostics := by
  induction exports with
  | nil => exact .nil
  | cons r rest ih =>
    rw [validate]
    cases r.validate with
    | error rejection => exact .cons ⟨rfl, rejection.warning_names r.name⟩ ih
    | ok c => exact ih

/-- Records are judged by their pairs as they were collected, and sorted by that, with a
    warning for everyone that is rejected. -/
theorem Exports.validate_isSortedInto :
    (∀ (r : Record) (verdict : Except Rejection Contribution),
      r.validate = verdict ↔ r.Verdict verdict) ∧
    ∀ exports : Exports, exports.IsSortedInto exports.validate := by
  exact ⟨fun r verdict => Record.validate_eq_iff_verdict,
    fun exports => ⟨sorted_validate exports, warned_validate exports⟩⟩

end PaperGraph
