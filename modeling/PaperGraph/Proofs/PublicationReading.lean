import Mathlib.Data.List.Nodup
import PaperGraph.Export.Publication
import PaperGraph.Proofs.Acceptance
import PaperGraph.Proofs.NTriplesRoundTrip

/-!
# Reading a publication

A publication, written line by line, is read again as what was exported: for
every accepted record, in order, the statement that it is one of the
contributions, and all its pairs with their repetitions.

* The predicates of an accepted record are required of its kind, so that none
  has a character that cannot be written (`wellFormed_required`). The objects
  are escaped, whatever they are.
* No two contributions have the same IRI, since numbers differ in their digits
  (`contributionIri_inj`), and none has that of the publication
  (`contributionIri_ne`).

So the statements about the IRI of a contribution are the pairs of one record,
and no other record says anything of it (`parse_render_accepted`).
-/

namespace PaperGraph.Publication

variable {publication id : String}

/-! ## The IRIs -/

theorem toString_inj {m n : Nat} (h : toString m = toString n) : m = n := by
  rw [Nat.toString_eq_ofList_toDigits, Nat.toString_eq_ofList_toDigits] at h
  have hdigits : Nat.toDigits 10 m = Nat.toDigits 10 n := by
    simpa using congrArg String.toList h
  have := congrArg (Nat.ofDigitChars 10 · 0) hdigits
  simpa [Nat.ofDigitChars_toDigits] using this

theorem contributionIri_inj {m n : Nat}
    (h : contributionIri publication m = contributionIri publication n) : m = n := by
  have h := congrArg String.toList h
  simp only [contributionIri, String.toList_append, List.append_cancel_left_eq] at h
  exact toString_inj (String.toList_injective h)

theorem contributionIri_ne (publication : String) (n : Nat) :
    publication ≠ contributionIri publication n := by
  intro h
  have h := congrArg (·.toList.length) h
  simp [contributionIri] at h

theorem nodup_iris (publication : String) (count : Nat) :
    (publication :: (List.range count).map (contributionIri publication)).Nodup := by
  rw [List.nodup_cons]
  constructor
  · intro h
    obtain ⟨n, _, hn⟩ := List.mem_map.1 h
    exact contributionIri_ne publication n hn.symm
  · exact List.Nodup.map_on (fun m _ n _ h => contributionIri_inj h) List.nodup_range

/-- Whether a text can be written as an IRI. -/
def isWritable (iri : String) : Bool :=
  iri.toList.all fun c => c != '>' && c != '\n'

theorem wellFormed_of_isWritable {iri : String} (h : isWritable iri) :
    (Term.iri iri).WellFormed := by
  intro c hc
  simpa using List.all_eq_true.1 h c hc

theorem wellFormed_append {a b : String} (ha : (Term.iri a).WellFormed)
    (hb : (Term.iri b).WellFormed) : (Term.iri (a ++ b)).WellFormed := by
  intro c hc
  rw [String.toList_append, List.mem_append] at hc
  exact hc.elim (ha c) (hb c)

theorem wellFormed_iriOf (h : (Term.iri id).WellFormed) : (Term.iri (iriOf id)).WellFormed := by
  have hnew : isWritable (Vocabulary.publications ++ "NEW/") := by
    simp [isWritable, Vocabulary.publications]
  exact wellFormed_append (wellFormed_of_isWritable hnew) h

theorem wellFormed_contributionIri (h : (Term.iri publication).WellFormed) (n : Nat) :
    (Term.iri (contributionIri publication n)).WellFormed := by
  have hname : isWritable "/contrib" := by simp [isWritable]
  refine wellFormed_append (wellFormed_append h (wellFormed_of_isWritable hname)) fun c hc => ?_
  rw [Nat.toString_eq_ofList_toDigits, String.toList_ofList] at hc
  have hdigit := Nat.isDigit_of_mem_toDigits (by decide) (by decide) hc
  constructor
  · rintro rfl
    exact absurd hdigit (by decide)
  · rintro rfl
    exact absurd hdigit (by decide)

theorem wellFormed_term {name : String} (h : isWritable name) :
    (Term.iri (Vocabulary.term name)).WellFormed := by
  have hterms : isWritable Vocabulary.terms := by simp [isWritable, Vocabulary.terms]
  exact wellFormed_append (wellFormed_of_isWritable hterms) (wellFormed_of_isWritable h)

theorem wellFormed_hasContribution : (Term.iri Vocabulary.hasContribution).WellFormed :=
  wellFormed_term (by simp [isWritable])

theorem wellFormed_required {kind : Kind} {p : String} (h : p ∈ kind.required) :
    (Term.iri p).WellFormed := by
  revert p
  cases kind with
  | _ =>
    simp only [Kind.required, List.forall_mem_cons, List.not_mem_nil, false_imp_iff,
      implies_true, and_true]
    and_intros
    all_goals exact wellFormed_term (by simp [isWritable])

/-! ## The statements -/

/-- What is said of a contribution by its pairs, each object being a plain
    literal. -/
def pairStatements (contribution : String) (pairs : Facts) : List Triple :=
  pairs.map fun (predicate, object) =>
    { subject := .iri contribution, predicate, object := .plain object }

/-- What is said of a numbered contribution: that it is one of the publication,
    and its pairs. -/
def block (publication : String) (numbered : Facts × Nat) : List Triple :=
  let contribution := contributionIri publication numbered.2
  { subject := .iri publication, predicate := Vocabulary.hasContribution,
    object := .iri contribution } :: pairStatements contribution numbered.1

/-- What is said of contributions, numbered in their order, by their pairs. -/
def blocks (publication : String) (contributions : List Facts) : List Triple :=
  contributions.zipIdx.flatMap (block publication)

theorem triples_ofContributions (contributions : List Contribution) (id : String) :
    (ofContributions contributions id).graph.triples =
      blocks (iriOf id) (contributions.map (·.pairs)) := by
  rw [blocks, List.zipIdx_map, List.flatMap_map]
  rfl

theorem wellFormed_block (h : (Term.iri publication).WellFormed) {numbered : Facts × Nat}
    (hpredicates : ∀ pair ∈ numbered.1, (Term.iri pair.1).WellFormed) :
    ∀ t ∈ block publication numbered, t.WellFormed := by
  have hcontribution := wellFormed_contributionIri h numbered.2
  intro t ht
  rcases List.mem_cons.1 ht with rfl | ht
  · exact ⟨rfl, h, wellFormed_hasContribution, hcontribution⟩
  · obtain ⟨pair, hpair, rfl⟩ := List.mem_map.1 ht
    exact ⟨rfl, hcontribution, hpredicates pair hpair, by simp [Term.plain, Term.WellFormed]⟩

theorem filter_block_self (publication : String) (pairs : Facts) (n : Nat) :
    (block publication (pairs, n)).filter (·.subject = .iri (contributionIri publication n)) =
      pairStatements (contributionIri publication n) pairs := by
  rw [block, List.filter_cons_of_neg (by simpa using contributionIri_ne publication n),
    List.filter_eq_self]
  intro t ht
  obtain ⟨pair, _, rfl⟩ := List.mem_map.1 ht
  simp

theorem filter_block_other {m n : Nat} (h : m ≠ n) (publication : String) (pairs : Facts) :
    (block publication (pairs, m)).filter (·.subject = .iri (contributionIri publication n)) =
      [] := by
  rw [block, List.filter_cons_of_neg (by simpa using contributionIri_ne publication n),
    List.filter_eq_nil_iff]
  intro t ht
  obtain ⟨pair, _, rfl⟩ := List.mem_map.1 ht
  simpa using fun he => h (contributionIri_inj he)

/-- Of all blocks only one is about the contribution of a number. -/
theorem filter_blocks {contributions : List Facts} {k n : Nat} {pairs : Facts} (hk : k ≤ n)
    (h : contributions[n - k]? = some pairs) :
    ((contributions.zipIdx k).flatMap (block publication)).filter
        (·.subject = .iri (contributionIri publication n)) =
      pairStatements (contributionIri publication n) pairs := by
  induction contributions generalizing k with
  | nil => simp at h
  | cons first rest ih =>
    rw [List.zipIdx_cons, List.flatMap_cons, List.filter_append]
    -- The numbers go up from `k`, so that a block before or after has another one.
    by_cases hn : k = n
    · subst hn
      obtain rfl : first = pairs := by simpa using h
      have hrest : ((rest.zipIdx (k + 1)).flatMap (block publication)).filter
          (·.subject = .iri (contributionIri publication k)) = [] := by
        rw [List.filter_flatMap, List.flatMap_eq_nil_iff]
        rintro ⟨ps, m⟩ hm
        have := List.le_snd_of_mem_zipIdx hm
        exact filter_block_other (by simp only at this; omega) publication ps
      rw [filter_block_self, hrest, List.append_nil]
    · rw [filter_block_other hn, List.nil_append]
      refine ih (by omega) ?_
      rwa [show n - k = n - (k + 1) + 1 by omega, List.getElem?_cons_succ] at h

/-! ## Reading -/

/-- A publication of the accepted records is read again statement by statement,
    and the statements about each of its contributions are the pairs of one
    record. The rejected records, which are all the others, say nothing. -/
theorem parse_render_accepted (exports : Exports) {id : String}
    (hid : ∀ c ∈ id.toList, c ≠ '>' ∧ c ≠ '\n') :
    let p := ofContributions exports.validate.accepted id
    let records := exports.filter (·.isAccepted)
    exports.validate.accepted.map (fun c => (c.name, c.pairs)) =
      records.map (fun r => (r.name, r.pairs)) ∧
    exports.validate.rejected.map (·.1) =
      (exports.filter (! ·.isAccepted)).map (·.name) ∧
    p.contributions = (List.range records.length).map (contributionIri p.iri) ∧
    (p.iri :: p.contributions).Nodup ∧
    ∃ g, NTriples.parse (p.render .ntriples) = .ok g ∧
      g.triples = blocks p.iri (records.map (·.pairs)) ∧
      ∀ n r, records[n]? = some r →
        g.about (.iri (contributionIri p.iri n)) =
          pairStatements (contributionIri p.iri n) r.pairs := by
  intro p records
  have haccepted := accepted_validate exports
  have hpairs : exports.validate.accepted.map (·.pairs) = records.map (·.pairs) := by
    have := congrArg (List.map Prod.snd) haccepted
    simpa [List.map_map, Function.comp_def] using this
  have hcount : exports.validate.accepted.length = records.length := by
    simpa using congrArg List.length haccepted
  have hcontributions :
      p.contributions = (List.range records.length).map (contributionIri p.iri) := by
    rw [← hcount]
    rfl
  have htriples : p.graph.triples = blocks p.iri (records.map (·.pairs)) := by
    rw [← hpairs]
    exact triples_ofContributions _ _
  -- The serializer checks no predicate: they are required ones, as these records
  -- are accepted.
  have hwellFormed : ∀ t ∈ p.graph.triples, t.WellFormed := by
    rw [htriples]
    intro t ht
    obtain ⟨⟨pairs, n⟩, hm, ht⟩ := List.mem_flatMap.1 ht
    obtain ⟨r, hr, rfl⟩ := List.mem_map.1 (List.fst_mem_of_mem_zipIdx hm)
    have hr := (List.mem_filter.1 hr).2
    refine wellFormed_block (wellFormed_iriOf hid) (fun pair hpair => ?_) t ht
    obtain ⟨kind, hkind⟩ := Record.exists_required hr hpair
    exact wellFormed_required hkind
  refine ⟨haccepted, rejected_validate exports, hcontributions, ?_, _,
    NTriples.parse_write hwellFormed, htriples, ?_⟩
  · rw [hcontributions]
    exact nodup_iris _ _
  · intro n r hr
    rw [Graph.about, Graph.ofTriples, htriples]
    exact filter_blocks (Nat.zero_le n) (by simp [hr])

/-- Exports of which the second has no content, and the third is a definition
    stated twice, the second time with a quotation. -/
def sampleExports : Exports :=
  let known : Facts :=
    [(Vocabulary.type, "Definition"), (Vocabulary.definitionContent, "a number")]
  ((Exports.append [] "first" known).append "second" [(Vocabulary.type, "Definition")]).append
    "third" known |>.append "third" [(Vocabulary.definitionContent, "\"two\\n\n\"")]

theorem read_sampleExports :
    (∀ c ∈ "a1".toList, c ≠ '>' ∧ c ≠ '\n') ∧ ∃ g,
      NTriples.parse ((ofContributions sampleExports.validate.accepted "a1").render .ntriples) =
        .ok g ∧
      g.about (.iri (contributionIri (iriOf "a1") 1)) =
        pairStatements (contributionIri (iriOf "a1") 1)
          [(Vocabulary.type, "Definition"), (Vocabulary.definitionContent, "a number"),
           (Vocabulary.definitionContent, "\"two\\n\n\"")] := by
  have hid : ∀ c ∈ "a1".toList, c ≠ '>' ∧ c ≠ '\n' :=
    wellFormed_of_isWritable (by decide +kernel)
  obtain ⟨_, _, _, _, g, hparse, _, habout⟩ := parse_render_accepted sampleExports hid
  have hsecond : (sampleExports.filter (·.isAccepted))[1]? = some
      ⟨"third", [(Vocabulary.type, "Definition"), (Vocabulary.definitionContent, "a number"),
        (Vocabulary.definitionContent, "\"two\\n\n\"")]⟩ := by
    decide +kernel
  exact ⟨hid, g, hparse, habout 1 _ hsecond⟩

end PaperGraph.Publication
