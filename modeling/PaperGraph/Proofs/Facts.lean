import Mathlib.Data.List.Induction
import Mathlib.Data.List.Perm.Basic
import PaperGraph.Export.Record
import PaperGraph.Proofs.Repetitions

/-!
# Facts and kinds

Flattening keeps of every predicate the last object, at the place where the
predicate is first stated; a snippet depends on nothing else. What a kind
requires is a set of predicates, and what is missing of it is listed in order.

* `lookup_flatten`, `keys_flatten`: the objects and the predicates of flattened
  facts;
* `render_congr`: a snippet depends on the values of the predicates only;
* `ofName?_eq_some_iff`: a kind has one name, and no two have the same;
* `Kind.Lacks`: the missing predicates, listed in order (`lacks_iff`).
-/

namespace PaperGraph

namespace Facts

@[simp]
theorem lookup_set (facts : Facts) (p o q : String) :
    (facts.set p o).lookup q = if q = p then some o else facts.lookup q := by
  induction facts with
  | nil =>
    rw [set, List.lookup_singleton, List.lookup_nil]
    simp only [beq_iff_eq]
  | cons f facts ih =>
    obtain ⟨p', o'⟩ := f
    rw [set]
    by_cases hp : p' = p
    · subst hp
      rw [if_pos rfl, List.lookup_cons, List.lookup_cons]
      by_cases hq : q = p'
      · simp [hq]
      · simp [hq, beq_false_of_ne hq]
    · rw [if_neg hp, List.lookup_cons, List.lookup_cons, ih]
      by_cases hq : q = p
      · simp [hq, beq_false_of_ne (Ne.symm hp)]
      · simp [hq]

@[simp]
theorem keys_set (facts : Facts) (p o : String) :
    (facts.set p o).map (·.1) =
      if p ∈ facts.map (·.1) then facts.map (·.1) else facts.map (·.1) ++ [p] := by
  induction facts with
  | nil => rfl
  | cons f facts ih =>
    obtain ⟨p', o'⟩ := f
    rw [set]
    by_cases hp : p' = p
    · simp [hp]
    · rw [if_neg hp, List.map_cons, ih]
      simp only [List.map_cons, List.mem_cons, Ne.symm hp, false_or]
      split_ifs
      · rfl
      · rfl

theorem flatten_concat (facts : Facts) (f : String × String) :
    Facts.flatten (facts ++ [f]) = (Facts.flatten facts).set f.1 f.2 := by
  simp [flatten]

/-- Of several objects of a predicate the last one holds. -/
@[simp]
theorem lookup_flatten (facts : Facts) (q : String) :
    (Facts.flatten facts).lookup q = facts.reverse.lookup q := by
  induction facts using List.reverseRecOn with
  | nil => rfl
  | append_singleton facts f ih =>
    rw [flatten_concat, lookup_set, ih, List.reverse_concat, List.lookup_cons]
    by_cases hq : q = f.1
    · simp [hq]
    · rw [if_neg hq, beq_false_of_ne hq]

/-- Every predicate keeps the place where it is first stated. -/
@[simp]
theorem keys_flatten (facts : Facts) :
    (Facts.flatten facts).map (·.1) = (facts.map (·.1)).eraseDups := by
  induction facts using List.reverseRecOn with
  | nil => rfl
  | append_singleton facts f ih =>
    rw [flatten_concat, keys_set, ih, List.map_append, List.map_singleton, eraseDups_concat]
    simp only [List.mem_eraseDups]

theorem mem_keys_flatten {facts : Facts} {p : String} :
    p ∈ (Facts.flatten facts).map (·.1) ↔ p ∈ facts.map (·.1) := by
  rw [keys_flatten, List.mem_eraseDups]

theorem exists_lookup_flatten_iff {facts : Facts} {p : String} :
    (∃ o, (Facts.flatten facts).lookup p = some o) ↔ p ∈ facts.map (·.1) := by
  rw [← Option.isSome_iff_exists, List.lookup_isSome_iff, ← mem_keys_flatten, List.mem_map]
  exact exists_congr fun fact => and_congr_right fun _ => beq_iff_eq.trans eq_comm

end Facts

/-- A snippet depends on the values of the predicates only. -/
theorem Snippet.render_congr {facts facts' : Facts} (h : ∀ p, facts.lookup p = facts'.lookup p)
    (kind : Kind) (label key : String) :
    render kind facts label key = render kind facts' label key := by
  have hvalue : facts.valueOf = facts'.valueOf := funext fun p => by
    rw [Facts.valueOf, Facts.valueOf, h]
  simp only [render, hvalue]

namespace Kind

@[simp]
theorem ofName?_name (k : Kind) : ofName? k.name = some k := by
  cases k with
  | definition => decide
  | dataset => decide
  | figure => decide
  | expResult => decide
  | software => decide

theorem ofName?_eq_some_iff {name : String} {k : Kind} : ofName? name = some k ↔ k.name = name := by
  constructor
  · intro h
    simpa using List.find?_some h
  · rintro rfl
    exact ofName?_name k

theorem ofName?_eq_none_iff {name : String} : ofName? name = none ↔ ∀ k : Kind, k.name ≠ name := by
  rw [Option.eq_none_iff_forall_ne_some]
  exact forall_congr' fun k => not_congr ofName?_eq_some_iff

theorem nodup_required (k : Kind) : k.required.Nodup := by
  cases k with
  | definition => decide
  | dataset => decide
  | figure => decide
  | expResult => decide
  | software => decide

theorem mem_missing_iff {k : Kind} {present : List String} {p : String} :
    p ∈ k.missing present ↔ p ∈ k.required ∧ p ∉ present := by
  rw [missing, List.mem_filter, requiredSorted, List.mem_mergeSort, decide_eq_true_eq]

theorem pairwise_requiredSorted (k : Kind) : k.requiredSorted.Pairwise (· < ·) := by
  have hle : k.requiredSorted.Pairwise fun a b => decide (a ≤ b) :=
    List.pairwise_mergeSort
      (fun a b c hab hbc => by
        simpa using String.le_trans (by simpa using hab) (by simpa using hbc))
      (fun a b => by simpa using String.le_total a b) _
  -- Sorting gives no strict order by itself; no predicate is required twice.
  have hne : k.requiredSorted.Pairwise (· ≠ ·) :=
    (List.mergeSort_perm _ _).nodup_iff.2 k.nodup_required
  refine (hle.and hne).imp fun {a b} ⟨hab, hne⟩ => ?_
  by_contra hlt
  exact hne (String.le_antisymm (by simpa using hab) (String.not_lt.1 hlt))

/-- The list tells in order what the kind requires and what is not present. -/
structure Lacks (k : Kind) (present missing : List String) : Prop where
  ordered : missing.Pairwise (· < ·)
  mem_iff : ∀ p, p ∈ missing ↔ p ∈ k.required ∧ p ∉ present

theorem lacks_missing (k : Kind) (present : List String) : k.Lacks present (k.missing present) where
  ordered := k.pairwise_requiredSorted.sublist List.filter_sublist
  mem_iff _ := mem_missing_iff

theorem Lacks.congr {k : Kind} {present present' missing : List String}
    (h : k.Lacks present missing) (hsame : ∀ p, p ∈ present ↔ p ∈ present') :
    k.Lacks present' missing where
  ordered := h.ordered
  mem_iff p := (h.mem_iff p).trans (and_congr_right fun _ => not_congr (hsame p))

/-- Texts in increasing order are different. -/
private theorem ne_of_lt {a b : String} (h : a < b) : a ≠ b := by
  rintro rfl
  exact String.lt_irrefl a h

theorem lacks_iff {k : Kind} {present missing : List String} :
    k.Lacks present missing ↔ missing = k.missing present := by
  constructor
  · intro h
    have hmem : ∀ p, p ∈ missing ↔ p ∈ k.missing present := fun p =>
      (h.mem_iff p).trans mem_missing_iff.symm
    -- Two lists in order with the same members are the same.
    have hperm : missing.Perm (k.missing present) :=
      (List.perm_ext_iff_of_nodup (h.ordered.imp ne_of_lt)
        ((lacks_missing k present).ordered.imp ne_of_lt)).2 hmem
    exact hperm.eq_of_pairwise (fun a b _ _ hab hba => absurd hab (String.lt_asymm hba))
      h.ordered (lacks_missing k present).ordered
  · rintro rfl
    exact lacks_missing k present

end Kind

end PaperGraph
