import PaperGraph.Proofs.PublicationReading
import PaperGraph.Proofs.Resolution

/-!
# Importing what was exported

A contribution that is published alone can be imported from its publication. A
store reads the publication as a set of statements, in which a repeated one
counts where it is first made. So of several values of a predicate it finds the
one that is new last (`Facts.IsNewest`), while a record means the one that
stands last. Both are the same unless an older value is restated at the end.

* `Facts.lookup_flatten_eraseDups_iff`: flattening without repetitions finds the
  newest value;
* `Publication.component_contribution`: everything in the publication of one
  contribution is connected with it;
* `Publication.profile_of_validate`: what is imported is what was exported, but
  for restated values, as in `restatedRecord`.
-/

namespace PaperGraph

/-! ## Newest values -/

/-- Of all values that facts give to a predicate, this one is the last to be
    given for the first time. -/
def Facts.IsNewest (facts : Facts) (p v : String) : Prop :=
  (p, v) ∈ facts ∧ ∀ w, (p, w) ∈ facts → facts.idxOf (p, w) ≤ facts.idxOf (p, v)

namespace Facts

variable {facts : Facts} {p v w : String}

theorem IsNewest.unique (hv : facts.IsNewest p v) (hw : facts.IsNewest p w) : v = w := by
  have hsame := Nat.le_antisymm (hw.2 v hv.1) (hv.2 w hw.1)
  exact (Prod.mk.inj ((List.idxOf_inj hv.1).1 hsame)).2

/-- A fact on another predicate, or one that is stated again, changes no newest
    value. -/
theorem isNewest_concat {f : String × String} (hf : ∀ w, (p, w) = f → f ∈ facts) :
    IsNewest (facts ++ [f]) p v ↔ facts.IsNewest p v := by
  have hmem (w : String) : (p, w) ∈ facts ++ [f] ↔ (p, w) ∈ facts := by
    rw [List.mem_append, List.mem_singleton]
    exact or_iff_left_of_imp fun h => h ▸ hf w h
  simp only [IsNewest, hmem]
  refine and_congr_right fun hv => forall₂_congr fun w hw => ?_
  rw [List.idxOf_append_of_mem hw, List.idxOf_append_of_mem hv]

/-- A fact that is new gives the newest value of its predicate. -/
theorem isNewest_concat_new (hnew : (p, w) ∉ facts) :
    IsNewest (facts ++ [(p, w)]) p v ↔ w = v := by
  have hlast : (facts ++ [(p, w)]).idxOf (p, w) = facts.length := by
    rw [List.idxOf_append_of_notMem hnew, List.idxOf_cons_self, Nat.add_zero]
  constructor
  · intro h
    rcases List.mem_append.1 h.1 with hv | hv
    · -- An older value stands before the new one.
      have hle := h.2 w (List.mem_append_right facts (List.mem_singleton_self _))
      rw [hlast, List.idxOf_append_of_mem hv] at hle
      exact absurd (List.idxOf_lt_length_iff.2 hv) (Nat.not_lt.2 hle)
    · exact (Prod.mk.inj (List.mem_singleton.1 hv)).2.symm
  · rintro rfl
    refine ⟨List.mem_append_right facts (List.mem_singleton_self _), fun u hu => ?_⟩
    have hlt := List.idxOf_lt_length_iff.2 hu
    rw [List.length_append, List.length_singleton] at hlt
    omega

/-- Flattened without repetitions, facts give the newest values. -/
theorem lookup_flatten_eraseDups_iff :
    (flatten facts.eraseDups).lookup p = some v ↔ facts.IsNewest p v := by
  rw [lookup_flatten]
  induction facts using List.reverseRecOn with
  | nil => simp [IsNewest]
  | append_singleton facts f ih =>
    obtain ⟨q, w⟩ := f
    rw [eraseDups_concat]
    by_cases hold : (q, w) ∈ facts
    · rw [if_pos hold, ih, isNewest_concat fun _ _ => hold]
    · rw [if_neg hold, List.reverse_concat, List.lookup_cons]
      by_cases hp : p = q
      · subst hp
        rw [isNewest_concat_new hold]
        simp
      · rw [beq_false_of_ne hp, isNewest_concat fun _ h => absurd (Prod.mk.inj h).1 hp]
        exact ih

theorem exists_lookup_flatten (hp : p ∈ facts.map (·.1)) :
    ∃ v, (flatten facts).lookup p = some v :=
  exists_lookup_flatten_iff.2 hp

end Facts

/-! ## The publication of one contribution -/

namespace Publication

variable {publication : String} {pairs : Facts}

theorem plain_injective : Term.plain.Injective := fun v w h => by
  simpa [Term.plain] using h

/-- Everything in the publication of one contribution is connected with it. -/
theorem component_contribution (publication : String) (pairs : Facts) :
    (Graph.ofTriples (block publication (pairs, 0))).component
      (.iri (contributionIri publication 0)) = block publication (pairs, 0) := by
  have hconnected : ∀ t ∈ block publication (pairs, 0),
      (Graph.ofTriples (block publication (pairs, 0))).Connected
        (.iri (contributionIri publication 0)) t.subject := by
    intro t ht
    rcases List.mem_cons.1 ht with rfl | ht
    · exact .step .refl ⟨_, List.mem_cons_self, rfl, .inr ⟨rfl, rfl⟩⟩
    · obtain ⟨pair, _, rfl⟩ := List.mem_map.1 ht
      exact .refl
  exact List.filter_eq_self.2 fun t ht => by simpa using hconnected t ht

theorem eraseDups_pairStatements (contribution : String) (pairs : Facts) :
    (pairStatements contribution pairs).eraseDups =
      pairStatements contribution pairs.eraseDups := by
  rw [pairStatements, eraseDups_map]
  · rfl
  · rintro ⟨p, o⟩ ⟨p', o'⟩ h
    obtain ⟨_, hpredicate, hobject⟩ := Triple.mk.inj h
    exact Prod.ext hpredicate (plain_injective hobject)

theorem known_contribution (publication : String) (pairs : Facts) :
    (Graph.ofTriples (block publication (pairs, 0))).known (contributionIri publication 0) =
      block publication (pairs.eraseDups, 0) := by
  have hother : ∀ t ∈ pairStatements (contributionIri publication 0) pairs,
      ! (t == { subject := .iri publication, predicate := Vocabulary.hasContribution,
                object := .iri (contributionIri publication 0) }) := by
    intro t ht
    obtain ⟨pair, _, rfl⟩ := List.mem_map.1 ht
    simp [(contributionIri_ne publication 0).symm]
  rw [Graph.known, component_contribution, block, List.eraseDups_cons,
    List.filter_eq_self.2 hother, eraseDups_pairStatements]
  rfl

/-- The facts of a statement and of pairs on one subject. -/
theorem lookup_factsOf_block {p : String} (hp : p ≠ Vocabulary.hasContribution) :
    (Profile.factsOf (block publication (pairs, 0))).lookup p = (Facts.flatten pairs).lookup p := by
  have hfacts : (block publication (pairs, 0)).map (fun t => (t.predicate, t.object.value)) =
      (Vocabulary.hasContribution, contributionIri publication 0) :: pairs := by
    simp [block, pairStatements, Term.plain, Term.value, Function.comp_def]
  rw [Profile.factsOf, hfacts, Facts.lookup_flatten, Facts.lookup_flatten, List.reverse_cons,
    List.lookup_append]
  simp [List.lookup_cons, beq_false_of_ne hp]

theorem type_ne_hasContribution : Vocabulary.type ≠ Vocabulary.hasContribution := by
  decide

theorem required_ne_hasContribution {kind : Kind} {p : String} (hp : p ∈ kind.required) :
    p ≠ Vocabulary.hasContribution := by
  have hall : kind.required.all (· ≠ Vocabulary.hasContribution) := by
    cases kind with
    | _ => decide
  simpa using List.all_eq_true.1 hall p hp

/-- Several pairs on the kind that say the same are one statement. -/
theorem isOfKind_contribution {kind : Kind} (hkind : (Vocabulary.type, kind.name) ∈ pairs)
    (hsame : ∀ pair ∈ pairs, pair.1 = Vocabulary.type → pair.2 = kind.name) :
    (Graph.ofTriples (block publication (pairs, 0))).IsOfKind
      (contributionIri publication 0) kind := by
  let t : Triple := { subject := .iri (contributionIri publication 0),
                      predicate := Vocabulary.type, object := .plain kind.name }
  refine ⟨t, ?_, rfl⟩
  have hnodup : ((Graph.ofTriples (block publication (pairs, 0))).kindStatements
      (contributionIri publication 0)).Nodup := (nodup_eraseDups _).filter _
  refine List.perm_singleton.1 ((List.perm_ext_iff_of_nodup hnodup
    (List.nodup_singleton t)).2 fun u => ?_)
  rw [Graph.kindStatements, Graph.known, component_contribution, List.mem_filter,
    List.mem_eraseDups, decide_eq_true_eq, List.mem_singleton]
  constructor
  · rintro ⟨hu, hpredicate⟩
    rcases List.mem_cons.1 hu with rfl | hu
    · exact absurd hpredicate type_ne_hasContribution.symm
    · obtain ⟨⟨p, o⟩, hpair, rfl⟩ := List.mem_map.1 hu
      obtain rfl : p = Vocabulary.type := hpredicate
      obtain rfl : o = kind.name := hsame _ hpair rfl
      rfl
  · rintro rfl
    exact ⟨List.mem_cons_of_mem _ (List.mem_map_of_mem hkind), rfl⟩

/-- What is found of a contribution that is published alone. -/
theorem profile_contribution {kind : Kind} (hkind : (Vocabulary.type, kind.name) ∈ pairs)
    (hsame : ∀ pair ∈ pairs, pair.1 = Vocabulary.type → pair.2 = kind.name)
    (hrequired : ∀ p, p ∈ pairs.map (·.1) ↔ p ∈ kind.required) :
    ∃ profile, Profile.of (Graph.ofTriples (block publication (pairs, 0)))
        (contributionIri publication 0) = .ok profile ∧
      profile.kind = kind ∧ profile.missing = [] ∧
      ∀ p ∈ pairs.map (·.1), profile.facts.lookup p = (Facts.flatten pairs.eraseDups).lookup p := by
  refine ⟨_, Profile.of_isOfKind (isOfKind_contribution hkind hsame), rfl, ?_, fun p hp => ?_⟩
  · refine List.eq_nil_iff_forall_not_mem.2 fun p hp => ?_
    obtain ⟨hneeded, habsent⟩ := ((Profile.isMissing_missing ..).mem_iff p).1 hp
    rw [component_contribution] at habsent
    obtain ⟨pair, hpair, rfl⟩ := List.mem_map.1 ((hrequired p).2 hneeded)
    exact habsent (List.mem_map.2 ⟨_, List.mem_cons_of_mem _ (List.mem_map_of_mem hpair), rfl⟩)
  · rw [known_contribution]
    exact lookup_factsOf_block (required_ne_hasContribution ((hrequired p).1 hp))

/-! ## Reading it again -/

variable {r : Record} {c : Contribution} {id : String}

theorem parse_render_contribution (hr : r.validate = .ok c) (hid : (Term.iri id).WellFormed) :
    NTriples.parse ((ofContributions [c] id).render .ntriples) =
      .ok (.ofTriples (block (iriOf id) (r.pairs, 0))) := by
  obtain ⟨_, hrequired, hc⟩ := Record.validate_eq_ok_iff.1 hr
  have hpairs : c.pairs = r.pairs := by rw [hc]
  have htriples : (ofContributions [c] id).graph.triples = block (iriOf id) (r.pairs, 0) := by
    rw [triples_ofContributions, ← hpairs]
    exact List.append_nil _
  rw [← htriples]
  refine NTriples.parse_write fun t ht => ?_
  rw [htriples] at ht
  refine wellFormed_block (wellFormed_iriOf hid) (fun pair hpair => ?_) t ht
  exact wellFormed_required ((hrequired _).1 (List.mem_map_of_mem hpair))

/-- The last pair on the kind is one of those that say the same. -/
theorem kind_of_validate (hr : r.validate = .ok c)
    (hsame : ∀ a ∈ r.pairs, ∀ b ∈ r.pairs, a.1 = Vocabulary.type → b.1 = Vocabulary.type →
      a.2 = b.2) : (Vocabulary.type, c.kind.name) ∈ r.pairs ∧
      ∀ pair ∈ r.pairs, pair.1 = Vocabulary.type → pair.2 = c.kind.name := by
  obtain ⟨hkind, _, _⟩ := Record.validate_eq_ok_iff.1 hr
  obtain ⟨before, after, hsplit, _⟩ := List.lookup_eq_some_iff.1 hkind
  have hmem : (Vocabulary.type, c.kind.name) ∈ r.pairs := by
    rw [← List.mem_reverse, hsplit]
    exact List.mem_append_right _ List.mem_cons_self
  exact ⟨hmem, fun pair hpair htype => hsame pair hpair _ hmem htype rfl⟩

/-- A record that is accepted, and does not contradict itself on its kind, can be
    imported from its publication: the kind is the same and nothing is missing.
    Of every predicate the newest value is found, which is the one that the
    record means unless that is an older one restated. -/
theorem profile_of_validate (hr : r.validate = .ok c)
    (hsame : ∀ a ∈ r.pairs, ∀ b ∈ r.pairs, a.1 = Vocabulary.type → b.1 = Vocabulary.type →
      a.2 = b.2) (hid : ∀ c ∈ id.toList, c ≠ '>' ∧ c ≠ '\n') :
    let publication := ofContributions [c] id
    publication.contributions = [contributionIri publication.iri 0] ∧
    ∃ g profile, NTriples.parse (publication.render .ntriples) = .ok g ∧
      Profile.of g (contributionIri publication.iri 0) = .ok profile ∧
      profile.kind = c.kind ∧ profile.missing = [] ∧
      ∀ p ∈ r.pairs.map (·.1), ∃ found meant, profile.facts.lookup p = some found ∧
        r.pairs.IsNewest p found ∧ r.pairs.flatten.lookup p = some meant ∧
        (found = meant ↔ r.pairs.IsNewest p meant) := by
  intro publication
  obtain ⟨hkind, hkinds⟩ := kind_of_validate hr hsame
  obtain ⟨_, hrequired, _⟩ := Record.validate_eq_ok_iff.1 hr
  obtain ⟨profile, hprofile, hkind, hmissing, hfacts⟩ :=
    profile_contribution hkind hkinds hrequired
  refine ⟨rfl, _, profile, parse_render_contribution hr hid, hprofile, hkind, hmissing,
    fun p hp => ?_⟩
  obtain ⟨found, hfound⟩ := Facts.exists_lookup_flatten
    (by simpa using hp : p ∈ r.pairs.eraseDups.map (·.1))
  obtain ⟨meant, hmeant⟩ := Facts.exists_lookup_flatten hp
  have hnewest := Facts.lookup_flatten_eraseDups_iff.1 hfound
  refine ⟨found, meant, (hfacts p hp).trans hfound, hnewest, hmeant, ?_⟩
  constructor
  · rintro rfl
    exact hnewest
  · exact hnewest.unique

/-- A definition that is told twice to be one, and that is worded once more. -/
def rewordedRecord : Record where
  name := "d"
  pairs :=
    [(Vocabulary.type, "Definition"), (Vocabulary.definitionContent, "old"),
     (Vocabulary.type, "Definition"), (Vocabulary.definitionContent, "\"new\"\n")]

theorem profile_rewordedRecord :
    ∃ c, rewordedRecord.validate = .ok c ∧
      (∀ a ∈ rewordedRecord.pairs, ∀ b ∈ rewordedRecord.pairs,
        a.1 = Vocabulary.type → b.1 = Vocabulary.type → a.2 = b.2) ∧
      (∀ c ∈ "a1".toList, c ≠ '>' ∧ c ≠ '\n') ∧
      ∃ g profile, NTriples.parse ((ofContributions [c] "a1").render .ntriples) = .ok g ∧
        Profile.of g (contributionIri (iriOf "a1") 0) = .ok profile ∧
        profile.kind = .definition ∧ profile.missing = [] ∧
        profile.facts.lookup Vocabulary.definitionContent = some "\"new\"\n" := by
  have hvalid : rewordedRecord.validate =
      .ok { name := "d", kind := .definition, pairs := rewordedRecord.pairs } := by
    decide +kernel
  have hsame : ∀ a ∈ rewordedRecord.pairs, ∀ b ∈ rewordedRecord.pairs,
      a.1 = Vocabulary.type → b.1 = Vocabulary.type → a.2 = b.2 := by
    decide +kernel
  have hid : ∀ c ∈ "a1".toList, c ≠ '>' ∧ c ≠ '\n' := by simp
  obtain ⟨_, g, profile, hparse, hprofile, hkind, hmissing, hfacts⟩ :=
    profile_of_validate hvalid hsame hid
  refine ⟨_, hvalid, hsame, hid, g, profile, hparse, hprofile, hkind, hmissing, ?_⟩
  obtain ⟨found, meant, hfound, hnewest, hmeant, hiff⟩ :=
    hfacts Vocabulary.definitionContent (by decide +kernel)
  have hlast : rewordedRecord.pairs.flatten.lookup Vocabulary.definitionContent =
      some "\"new\"\n" := by
    decide +kernel
  obtain rfl := Option.some.inj (hmeant.symm.trans hlast)
  have hagain : rewordedRecord.pairs.IsNewest Vocabulary.definitionContent "\"new\"\n" := by
    rw [← Facts.lookup_flatten_eraseDups_iff]
    decide +kernel
  rw [hfound, hiff.2 hagain]

/-- A definition that gets its first wording back at the end. -/
def restatedRecord : Record where
  name := "d"
  pairs :=
    [(Vocabulary.type, "Definition"), (Vocabulary.definitionContent, "old"),
     (Vocabulary.definitionContent, "new"), (Vocabulary.definitionContent, "old")]

/-- The record means its last wording, but the other one is imported. -/
theorem profile_restatedRecord :
    ∃ c, restatedRecord.validate = .ok c ∧
      (∀ a ∈ restatedRecord.pairs, ∀ b ∈ restatedRecord.pairs,
        a.1 = Vocabulary.type → b.1 = Vocabulary.type → a.2 = b.2) ∧
      ∃ g profile, NTriples.parse ((ofContributions [c] "a1").render .ntriples) = .ok g ∧
        Profile.of g (contributionIri (iriOf "a1") 0) = .ok profile ∧
        profile.facts.lookup Vocabulary.definitionContent = some "new" ∧
        restatedRecord.pairs.flatten.lookup Vocabulary.definitionContent = some "old" := by
  have hvalid : restatedRecord.validate =
      .ok { name := "d", kind := .definition, pairs := restatedRecord.pairs } := by
    decide +kernel
  have hsame : ∀ a ∈ restatedRecord.pairs, ∀ b ∈ restatedRecord.pairs,
      a.1 = Vocabulary.type → b.1 = Vocabulary.type → a.2 = b.2 := by
    decide +kernel
  have hid : (Term.iri "a1").WellFormed := by simp [Term.WellFormed]
  obtain ⟨hkind, hkinds⟩ := kind_of_validate hvalid hsame
  obtain ⟨_, hrequired, _⟩ := Record.validate_eq_ok_iff.1 hvalid
  obtain ⟨profile, hprofile, _, _, hfacts⟩ := profile_contribution hkind hkinds hrequired
  refine ⟨_, hvalid, hsame, _, profile, parse_render_contribution hvalid hid, hprofile, ?_, ?_⟩
  · rw [hfacts Vocabulary.definitionContent (by decide +kernel)]
    decide +kernel
  · decide +kernel

end Publication

end PaperGraph
