import PaperGraph.Export.Validation
import PaperGraph.Proofs.Facts

/-!
# Acceptance of exports

Which records are accepted, and that an accepted record keeps all its pairs.

* `Record.validate_eq_ok_iff`: the last pair on the kind tells a kind, and the
  predicates are those that it requires, no more and no fewer;
* `accepted_validate`: the accepted contributions are those of the accepted
  records, in their order.
-/

namespace PaperGraph

theorem Record.validate_eq_ok_iff {r : Record} {c : Contribution} :
    r.validate = .ok c ↔ r.pairs.reverse.lookup Vocabulary.type = some c.kind.name ∧
      (∀ p, p ∈ r.pairs.map (·.1) ↔ p ∈ c.kind.required) ∧
        c = { name := r.name, kind := c.kind, pairs := r.pairs } := by
  have hsame : ∀ kind : Kind, ((∀ p ∈ kind.required, p ∈ r.pairs.flatten.map (·.1)) ∧
      ∀ p ∈ r.pairs.flatten.map (·.1), p ∈ kind.required) ↔
        ∀ p, p ∈ r.pairs.map (·.1) ↔ p ∈ kind.required := fun kind => by
    simp only [Facts.mem_keys_flatten]
    exact ⟨fun ⟨h, h'⟩ p => ⟨h' p, h p⟩, fun h => ⟨fun p => (h p).2, fun p => (h p).1⟩⟩
  rw [Record.validate]
  -- The flattened pairs have the predicates of all pairs, and their last objects.
  simp only [Facts.lookup_flatten]
  constructor
  · intro h
    split at h
    · simp at h
    · next name hname =>
      split at h
      · simp at h
      · next kind hkind =>
        split at h
        · next hpredicates =>
          obtain rfl : { name := r.name, kind, pairs := r.pairs } = c := by simpa using h
          exact ⟨by rw [hname, Kind.ofName?_eq_some_iff.1 hkind], (hsame _).1 hpredicates, rfl⟩
        · simp at h
  · rintro ⟨hname, hpredicates, hc⟩
    rw [hname]
    simp only [Kind.ofName?_name]
    rw [if_pos ((hsame _).2 hpredicates), ← hc]

/-- Whether the record stands for a contribution. -/
def Record.isAccepted (r : Record) : Bool :=
  r.validate.isOk

/-- The accepted contributions are those of the accepted records, in order and
    with all their pairs. -/
theorem accepted_validate (exports : Exports) :
    exports.validate.accepted.map (fun c => (c.name, c.pairs)) =
      (exports.filter (·.isAccepted)).map fun r => (r.name, r.pairs) := by
  induction exports with
  | nil => rfl
  | cons r rest ih =>
    rw [Exports.validate, List.filter_cons]
    cases hr : r.validate with
    | error rejection =>
      have : ¬ r.isAccepted := by simp [Record.isAccepted, hr, Except.isOk, Except.toBool]
      rw [if_neg this]
      exact ih
    | ok c =>
      have : r.isAccepted := by simp [Record.isAccepted, hr, Except.isOk, Except.toBool]
      obtain ⟨_, _, hc⟩ := Record.validate_eq_ok_iff.1 hr
      rw [if_pos this, List.map_cons, List.map_cons, ih, hc]

theorem rejected_validate (exports : Exports) :
    exports.validate.rejected.map (·.1) =
      (exports.filter (! ·.isAccepted)).map (·.name) := by
  induction exports with
  | nil => rfl
  | cons r rest ih =>
    rw [Exports.validate, List.filter_cons]
    cases hr : r.validate with
    | error rejection =>
      have : ! r.isAccepted := by simp [Record.isAccepted, hr, Except.isOk, Except.toBool]
      rw [if_pos this, List.map_cons, List.map_cons, ih]
    | ok c =>
      have : ¬ (! r.isAccepted) := by simp [Record.isAccepted, hr, Except.isOk, Except.toBool]
      rw [if_neg this]
      exact ih

/-- Every predicate of an accepted record is required of some kind. -/
theorem Record.exists_required {r : Record} (h : r.isAccepted) {pair : String × String}
    (hpair : pair ∈ r.pairs) : ∃ kind : Kind, pair.1 ∈ kind.required := by
  cases hr : r.validate with
  | error rejection => simp [Record.isAccepted, hr, Except.isOk, Except.toBool] at h
  | ok c =>
    obtain ⟨_, hpredicates, _⟩ := Record.validate_eq_ok_iff.1 hr
    exact ⟨c.kind, (hpredicates _).1 (List.mem_map_of_mem hpair)⟩

end PaperGraph
