import PaperGraph.Proofs.Facts
import PaperGraph.Proofs.Repetitions

/-!
# Flattening

Facts are flattened in one pass. A fact on a predicate that was met before replaces its object
where it stands, and any other one comes last. So a predicate stands where it was first met, with
the object that was told last. The pass remembers nothing else of the facts behind it, so that these
can be flattened on their own, too, before the others are added.

* `Facts.FlattensTo`: what facts are flattened to, told without the pass. There is one such list
  (`Facts.FlattensTo.unique`), and flattening finds it (`Facts.flatten_eq_iff`);
* `Facts.flatten_append`, `Facts.flatten_eq_self`: flattening goes on from what it has got, and
  changes nothing where no predicate is repeated;
* `Record.declaredKind?_eq_lookup`: the kind that is looked for from the end is the one that
  flattening keeps;
* `Facts.flatten_lastWins`: flattening and the declared kind of a record.
-/

namespace PaperGraph

namespace Facts

variable {facts flat flat' : Facts} {p o : String}

/-- The last fact on the predicate has this object. -/
def TellsLast (facts : Facts) (p o : String) : Prop :=
  ∃ front back, facts = front ++ (p, o) :: back ∧ ∀ f ∈ back, f.1 ≠ p

/-- What facts come down to where the last object of every predicate holds. -/
structure FlattensTo (facts flat : Facts) : Prop where
  /-- No predicate is stated twice. -/
  distinct : (flat.map (·.1)).Nodup
  /-- The predicates are those that the facts state. -/
  mem_iff : ∀ p, p ∈ flat.map (·.1) ↔ p ∈ facts.map (·.1)
  /-- They stand in the order in which the facts first state them. -/
  ordered : (flat.map (·.1)).Pairwise fun p q =>
    (facts.map (·.1)).idxOf p < (facts.map (·.1)).idxOf q
  /-- A predicate has the object that was last told of it. -/
  last : ∀ p o, (p, o) ∈ flat ↔ facts.TellsLast p o

/-! ## What is kept -/

theorem tellsLast_iff_lookup : facts.TellsLast p o ↔ (flatten facts).lookup p = some o := by
  rw [lookup_flatten, List.lookup_eq_some_iff]
  constructor
  · rintro ⟨front, back, hfacts, hback⟩
    refine ⟨back.reverse, front.reverse, by simp [hfacts], fun f hf => ?_⟩
    exact bne_iff_ne.2 (hback f (List.mem_reverse.1 hf)).symm
  · rintro ⟨back, front, hfacts, hback⟩
    refine ⟨front.reverse, back.reverse, ?_, fun f hf => ?_⟩
    · rw [← List.reverse_reverse facts, hfacts]
      simp
    · exact (bne_iff_ne.1 (hback f (List.mem_reverse.1 hf))).symm

theorem nodup_keys_flatten (facts : Facts) : ((flatten facts).map (·.1)).Nodup := by
  rw [keys_flatten]
  exact nodup_eraseDups _

theorem flattensTo_flatten (facts : Facts) : facts.FlattensTo (flatten facts) where
  distinct := nodup_keys_flatten facts
  mem_iff _ := mem_keys_flatten
  ordered := by
    rw [keys_flatten]
    exact pairwise_idxOf_eraseDups _
  last _ _ := (lookup_eq_some_iff_mem (nodup_keys_flatten facts)).symm.trans
    tellsLast_iff_lookup.symm

/-- A list is known by its members and by a strict order in which they stand. -/
theorem FlattensTo.unique (h : facts.FlattensTo flat) (h' : facts.FlattensTo flat') :
    flat = flat' := by
  have hmem : ∀ f, f ∈ flat ↔ f ∈ flat' := fun f =>
    (h.last f.1 f.2).trans (h'.last f.1 f.2).symm
  have hperm : flat.Perm flat' :=
    (List.perm_ext_iff_of_nodup (h.distinct.of_map _) (h'.distinct.of_map _)).2 hmem
  have hordered := List.pairwise_map.1 h.ordered
  have hordered' := List.pairwise_map.1 h'.ordered
  exact hperm.eq_of_pairwise (fun _ _ _ _ hlt hgt => absurd hlt (Nat.lt_asymm hgt))
    hordered hordered'

theorem flatten_eq_iff : flatten facts = flat ↔ facts.FlattensTo flat := by
  constructor
  · rintro rfl
    exact flattensTo_flatten facts
  · exact (flattensTo_flatten facts).unique

example : flatten [("b", "1"), ("a", "2"), ("b", "3"), ("c", "4"), ("a", "")] =
    [("b", "3"), ("a", ""), ("c", "4")] := by
  decide

/-! ## Going on -/

theorem set_of_not_mem (h : p ∉ facts.map (·.1)) : facts.set p o = facts ++ [(p, o)] := by
  induction facts with
  | nil => rfl
  | cons f facts ih =>
    rw [List.map_cons, List.mem_cons, not_or] at h
    rw [set, if_neg (Ne.symm h.1), ih h.2, List.cons_append]

/-- Facts without repeated predicates are flat already. -/
theorem flatten_eq_self (h : (facts.map (·.1)).Nodup) : flatten facts = facts := by
  induction facts using List.reverseRecOn with
  | nil => rfl
  | append_singleton facts f ih =>
    rw [List.map_append, List.map_singleton, ← List.concat_eq_append, List.nodup_concat] at h
    rw [flatten_concat, ih h.2, set_of_not_mem h.1]

@[simp]
theorem flatten_flatten (facts : Facts) : flatten (flatten facts) = flatten facts :=
  flatten_eq_self (nodup_keys_flatten facts)

/-- Of the facts that came before, nothing counts but what they were flattened to. -/
theorem flatten_append (facts more : Facts) : flatten (facts ++ more) =
    more.foldl (fun flat f => flat.set f.1 f.2) (flatten facts) :=
  List.foldl_append

theorem flatten_append_flatten (facts more : Facts) :
    flatten (flatten facts ++ more) = flatten (facts ++ more) := by
  rw [flatten_append, flatten_append, flatten_flatten]

end Facts

namespace Record

/-- The kind found from the end is the one that flattening keeps. -/
theorem declaredKind?_eq_lookup (r : Record) :
    r.declaredKind? = r.pairs.flatten.lookup Vocabulary.type := by
  rw [declaredKind?, Facts.lookup_flatten, lookup_eq_find?]

theorem declaredKind?_eq_none_iff {r : Record} :
    r.declaredKind? = none ↔ Vocabulary.type ∉ r.pairs.map (·.1) := by
  rw [declaredKind?_eq_lookup, ← Facts.exists_lookup_flatten_iff, not_exists,
    Option.eq_none_iff_forall_ne_some]

end Record

/-- Flattening keeps of every predicate the object that is last told, at the place where the
    predicate is first stated. Flat facts are left as they are, facts that come later can be
    flattened together with what the earlier ones were flattened to, and a record declares the kind
    that flattening keeps. -/
theorem Facts.flatten_lastWins :
    (∀ facts flat : Facts, flatten facts = flat ↔ facts.FlattensTo flat) ∧
    (∀ facts : Facts, flatten (flatten facts) = flatten facts) ∧
    (∀ facts more : Facts, flatten (facts ++ more) = flatten (flatten facts ++ more)) ∧
    ∀ r : Record, r.declaredKind? = r.pairs.flatten.lookup Vocabulary.type ∧
      (r.declaredKind? = none ↔ Vocabulary.type ∉ r.pairs.map (·.1)) := by
  refine ⟨fun facts flat => flatten_eq_iff, flatten_flatten, fun facts more => ?_, fun r => ?_⟩
  · rw [flatten_append_flatten]
  · exact ⟨r.declaredKind?_eq_lookup, Record.declaredKind?_eq_none_iff⟩

end PaperGraph
