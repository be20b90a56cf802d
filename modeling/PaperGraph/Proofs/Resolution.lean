import PaperGraph.Proofs.Connection
import PaperGraph.Proofs.Facts
import PaperGraph.Store.Profile

/-!
# What an import is answered

The answer to a request is fixed by the statements about the terms connected
with the IRI that is asked for, each taken once (`Graph.known`). Five things can
be wrong with them, and the first one that is decides:

* nothing is known of the IRI;
* its kind is not told by exactly one statement;
* what is told for the kind is none;
* required predicates are missing;
* it is a figure whose image has no file.

`Graph.Verdict` states these rules, without the search for what is connected
and without the flattening of the facts, and `resolve_eq_iff_verdict` says that
the store follows them. An inspection finds the first three faults.
-/

namespace PaperGraph

/-- Whether the fault concerns the profile of a contribution, and not what is
    needed beyond it to show the contribution. -/
def ResolveFault.IsOfProfile : ResolveFault → Prop
  | .unknownContent _ => True
  | .classification .. => True
  | .unsupportedKind .. => True
  | _ => False

namespace Graph

/-- What is stated about the terms connected with an IRI, in the order of the
    graph and each statement once. -/
noncomputable def known (g : Graph) (iri : String) : List Triple :=
  (g.component (.iri iri)).eraseDups

/-- The statements that tell the kind of the contribution. -/
noncomputable def kindStatements (g : Graph) (iri : String) : List Triple :=
  (g.known iri).filter (·.predicate = Vocabulary.type)

/-- The contribution is of this kind: one statement tells so, and no other
    tells anything of its kind. -/
def IsOfKind (g : Graph) (iri : String) (kind : Kind) : Prop :=
  ∃ t, g.kindStatements iri = [t] ∧ kind.name = t.object.value

/-- The required predicates that nothing connected with the IRI has, in order. -/
def IsMissing (g : Graph) (iri : String) (kind : Kind) (missing : List String) : Prop :=
  kind.Lacks ((g.component (.iri iri)).map (·.predicate)) missing

/-- The facts give to every predicate the object of the last statement that has
    it, and no object to a predicate that no statement has. -/
def AreLastObjects (triples : List Triple) (facts : Facts) : Prop :=
  ∀ p, facts.lookup p = (triples.reverse.find? (·.predicate = p)).map (·.object.value)

/-- How a request has to be answered. -/
inductive Verdict (g : Graph) (hasMedia : String → Bool) (r : Request) : Answer → Prop
  | unknown : g.component (.iri r.iri) = [] → Verdict g hasMedia r (.error (.unknownContent r.iri))
  | unclassified {found : Nat} : g.component (.iri r.iri) ≠ [] →
      (g.kindStatements r.iri).length = found → found ≠ 1 →
      Verdict g hasMedia r (.error (.classification r.iri found))
  | unsupported {t : Triple} : g.kindStatements r.iri = [t] →
      (∀ kind : Kind, kind.name ≠ t.object.value) →
      Verdict g hasMedia r (.error (.unsupportedKind r.iri t.object.value))
  | incomplete {kind : Kind} {missing : List String} : g.IsOfKind r.iri kind →
      g.IsMissing r.iri kind missing → missing ≠ [] →
      Verdict g hasMedia r (.error (.incomplete r.iri missing))
  | imageless {facts : Facts} : g.IsOfKind r.iri .figure → g.IsMissing r.iri .figure [] →
      AreLastObjects (g.known r.iri) facts → ¬ hasMedia (facts.valueOf Vocabulary.figureUrl) →
      Verdict g hasMedia r (.error (.missingMedia (facts.valueOf Vocabulary.figureUrl)))
  | resolved {kind : Kind} {facts : Facts} : g.IsOfKind r.iri kind → g.IsMissing r.iri kind [] →
      AreLastObjects (g.known r.iri) facts →
      (kind = .figure → hasMedia (facts.valueOf Vocabulary.figureUrl)) →
      Verdict g hasMedia r (.ok { snippet := Snippet.render kind facts r.label r.key, kind })

end Graph

/-! ## Profiles -/

namespace Profile

open PaperGraph.Graph

variable {g : Graph} {iri : String}

theorem of_eq (g : Graph) (iri : String) : Profile.of g iri =
    if g.known iri = [] then .error (.unknownContent iri)
    else match g.kindStatements iri with
      | [t] =>
        match Kind.ofName? t.object.value with
        | some kind => .ok { kind, facts := factsOf (g.known iri) }
        | none => .error (.unsupportedKind iri t.object.value)
      | types => .error (.classification iri types.length) := by
  rw [Profile.of, neighbourhood_eq_component]
  rfl

theorem known_eq_nil_iff : g.known iri = [] ↔ g.component (.iri iri) = [] := by
  rw [known, List.eq_nil_iff_forall_not_mem, List.eq_nil_iff_forall_not_mem]
  simp only [List.mem_eraseDups]

theorem known_ne_nil {t : Triple} (h : g.kindStatements iri = [t]) : g.known iri ≠ [] := by
  intro hnil
  rw [kindStatements, hnil] at h
  exact absurd h (by simp)

theorem of_unknown (h : g.component (.iri iri) = []) :
    Profile.of g iri = .error (.unknownContent iri) := by
  rw [of_eq, if_pos (known_eq_nil_iff.2 h)]

theorem of_unclassified (h : g.component (.iri iri) ≠ [])
    (hfound : (g.kindStatements iri).length ≠ 1) :
    Profile.of g iri = .error (.classification iri (g.kindStatements iri).length) := by
  rw [of_eq, if_neg fun hnil => h (known_eq_nil_iff.1 hnil)]
  split
  · next t ht =>
    rw [ht] at hfound
    exact absurd rfl hfound
  · rfl

theorem of_unsupported {t : Triple} (h : g.kindStatements iri = [t])
    (hname : ∀ kind : Kind, kind.name ≠ t.object.value) :
    Profile.of g iri = .error (.unsupportedKind iri t.object.value) := by
  rw [of_eq, if_neg (known_ne_nil h), h]
  simp only [Kind.ofName?_eq_none_iff.2 hname]

theorem of_isOfKind {kind : Kind} (h : g.IsOfKind iri kind) :
    Profile.of g iri = .ok { kind, facts := factsOf (g.known iri) } := by
  obtain ⟨t, ht, hname⟩ := h
  rw [of_eq, if_neg (known_ne_nil ht), ht]
  simp only [Kind.ofName?_eq_some_iff.2 hname]

/-- One of the three faults of a profile holds, or there is a profile. -/
theorem of_cases (g : Graph) (iri : String) :
    g.component (.iri iri) = [] ∨
    (g.component (.iri iri) ≠ [] ∧ (g.kindStatements iri).length ≠ 1) ∨
    (∃ t, g.kindStatements iri = [t] ∧ ∀ kind : Kind, kind.name ≠ t.object.value) ∨
    ∃ kind, g.IsOfKind iri kind := by
  by_cases hnil : g.component (.iri iri) = []
  · exact .inl hnil
  by_cases hone : (g.kindStatements iri).length = 1
  · obtain ⟨t, ht⟩ := List.length_eq_one_iff.1 hone
    by_cases hname : ∃ kind : Kind, kind.name = t.object.value
    · obtain ⟨kind, hkind⟩ := hname
      exact .inr (.inr (.inr ⟨kind, t, ht, hkind⟩))
    · exact .inr (.inr (.inl ⟨t, ht, not_exists.1 hname⟩))
  · exact .inr (.inl ⟨hnil, hone⟩)

theorem areLastObjects_factsOf (triples : List Triple) :
    AreLastObjects triples (factsOf triples) := by
  intro p
  -- Both sides look for the first statement with `p` from the end.
  rw [factsOf, Facts.lookup_flatten, ← List.map_reverse, lookup_eq_find?, List.find?_map,
    Option.map_map]
  rfl

/-- The profile lacks what nothing connected with the IRI has: repetitions do
    not matter for that. -/
theorem isMissing_missing (g : Graph) (iri : String) (kind : Kind) :
    g.IsMissing iri kind (missing { kind, facts := factsOf (g.known iri) }) where
  ordered := (Kind.lacks_missing _ _).ordered
  mem_iff p := by
    have hkeys : (factsOf (g.known iri)).map (·.1) =
        ((g.known iri).map (·.predicate)).eraseDups := by
      rw [factsOf, Facts.keys_flatten, List.map_map]
      rfl
    rw [missing, Kind.mem_missing_iff, hkeys, List.mem_eraseDups]
    simp only [List.mem_map, known, List.mem_eraseDups]

end Profile

/-! ## Answers -/

namespace Graph

variable {g : Graph} {hasMedia : String → Bool} {r : Request}

theorem resolve_of_error {fault : ResolveFault} (h : Profile.of g r.iri = .error fault) :
    g.resolve hasMedia r = .error fault := by
  rw [resolve, h]
  rfl

theorem resolve_of_ok {p : Profile} (h : Profile.of g r.iri = .ok p) : g.resolve hasMedia r =
    if p.missing ≠ [] then .error (.incomplete r.iri p.missing)
    else if p.kind = .figure ∧ ¬ hasMedia (p.facts.valueOf Vocabulary.figureUrl) then
      .error (.missingMedia (p.facts.valueOf Vocabulary.figureUrl))
    else .ok { snippet := Snippet.render p.kind p.facts r.label r.key, kind := p.kind } := by
  rw [resolve, h]
  by_cases hmissing : p.missing ≠ []
  · rw [if_pos hmissing]
    simp only [bind, Except.bind, if_pos hmissing]
  · rw [if_neg hmissing]
    simp only [bind, Except.bind, if_neg hmissing]
    split_ifs
    · rfl
    · rfl

/-- Facts that give the same objects give the same values. -/
theorem AreLastObjects.valueOf_eq {triples : List Triple} {facts facts' : Facts}
    (h : AreLastObjects triples facts) (h' : AreLastObjects triples facts') (p : String) :
    facts.valueOf p = facts'.valueOf p := by
  rw [Facts.valueOf, Facts.valueOf, h p, h' p]

/-- The rules leave nothing open: an answer that follows them is the answer. -/
theorem resolve_of_verdict {a : Answer} (h : g.Verdict hasMedia r a) :
    g.resolve hasMedia r = a := by
  have lacks : ∀ {kind missing}, g.IsMissing r.iri kind missing →
      Profile.missing { kind, facts := Profile.factsOf (g.known r.iri) } = missing :=
    fun hm => by rw [Kind.lacks_iff.1 hm, Kind.lacks_iff.1 (Profile.isMissing_missing ..)]
  have last := Profile.areLastObjects_factsOf (g.known r.iri)
  -- Each rule excludes those before it, so that it decides the answer.
  cases h with
  | unknown hnil => exact resolve_of_error (Profile.of_unknown hnil)
  | unclassified hknown hfound hone =>
    rw [← hfound] at hone ⊢
    exact resolve_of_error (Profile.of_unclassified hknown hone)
  | unsupported ht hname => exact resolve_of_error (Profile.of_unsupported ht hname)
  | incomplete hkind hmissing hne =>
    rw [resolve_of_ok (Profile.of_isOfKind hkind), lacks hmissing, if_pos hne]
  | imageless hkind hmissing hfacts hmedia =>
    -- The facts of a rule may be others than those of the profile, but give the
    -- same objects.
    rw [resolve_of_ok (Profile.of_isOfKind hkind), lacks hmissing, if_neg (not_not.2 rfl)]
    rw [hfacts.valueOf_eq last] at hmedia ⊢
    rw [if_pos ⟨rfl, hmedia⟩]
  | resolved hkind hmissing hfacts hmedia =>
    rw [hfacts.valueOf_eq last] at hmedia
    rw [resolve_of_ok (Profile.of_isOfKind hkind), lacks hmissing, if_neg (not_not.2 rfl),
      if_neg fun hno => hno.2 (hmedia hno.1),
      Snippet.render_congr fun p => (last p).trans (hfacts p).symm]

/-- The rules cover everything: the answer follows them. -/
theorem verdict_resolve (g : Graph) (hasMedia : String → Bool) (r : Request) :
    g.Verdict hasMedia r (g.resolve hasMedia r) := by
  rcases Profile.of_cases g r.iri with hnil | ⟨hknown, hone⟩ | ⟨t, ht, hname⟩ | ⟨kind, hkind⟩
  · rw [resolve_of_error (Profile.of_unknown hnil)]
    exact .unknown hnil
  · rw [resolve_of_error (Profile.of_unclassified hknown hone)]
    exact .unclassified hknown rfl hone
  · rw [resolve_of_error (Profile.of_unsupported ht hname)]
    exact .unsupported ht hname
  · have hmissing := Profile.isMissing_missing g r.iri kind
    have hlast := Profile.areLastObjects_factsOf (g.known r.iri)
    rw [resolve_of_ok (Profile.of_isOfKind hkind)]
    split_ifs with hne hmedia
    · exact .incomplete hkind hmissing hne
    · obtain ⟨rfl, hmedia⟩ := hmedia
      rw [not_not.1 hne] at hmissing
      exact .imageless hkind hmissing hlast hmedia
    · rw [not_not.1 hne] at hmissing
      refine .resolved hkind hmissing hlast fun hf => ?_
      by_contra hno
      exact hmedia ⟨hf, hno⟩

/-! ## Inspections -/

theorem inspection_of_error {iri : String} {fault : ResolveFault}
    (h : Profile.of g iri = .error fault) : Inspection.of g iri =
      { iri, kind := none, facts := g.direct iri, missing := [], fault := some fault } := by
  rw [Inspection.of, h]

theorem inspection_of_isOfKind {iri : String} {kind : Kind} (h : g.IsOfKind iri kind) :
    ∃ facts missing, Inspection.of g iri =
        { iri, kind := some kind, facts, missing, fault := none } ∧
      AreLastObjects (g.known iri) facts ∧ g.IsMissing iri kind missing := by
  refine ⟨_, _, ?_, Profile.areLastObjects_factsOf _,
    Profile.isMissing_missing g iri kind⟩
  rw [Inspection.of, Profile.of_isOfKind h]

theorem inspection_fault_iff {fault : ResolveFault} :
    (Inspection.of g r.iri).fault = some fault ↔
      g.Verdict hasMedia r (.error fault) ∧ fault.IsOfProfile := by
  constructor
  · intro h
    rcases Profile.of_cases g r.iri with hnil | ⟨hknown, hone⟩ | ⟨t, ht, hname⟩ | ⟨kind, hkind⟩
    · rw [inspection_of_error (Profile.of_unknown hnil)] at h
      exact Option.some.inj h ▸ ⟨.unknown hnil, trivial⟩
    · rw [inspection_of_error (Profile.of_unclassified hknown hone)] at h
      exact Option.some.inj h ▸ ⟨.unclassified hknown rfl hone, trivial⟩
    · rw [inspection_of_error (Profile.of_unsupported ht hname)] at h
      exact Option.some.inj h ▸ ⟨.unsupported ht hname, trivial⟩
    · obtain ⟨facts, missing, he, _⟩ := inspection_of_isOfKind hkind
      rw [he] at h
      simp at h
  · rintro ⟨h, hprofile⟩
    cases h with
    | unknown hnil => rw [inspection_of_error (Profile.of_unknown hnil)]
    | unclassified hknown hfound hone =>
      rw [← hfound] at hone ⊢
      rw [inspection_of_error (Profile.of_unclassified hknown hone)]
    | unsupported ht hname => rw [inspection_of_error (Profile.of_unsupported ht hname)]
    | incomplete => exact hprofile.elim
    | imageless => exact hprofile.elim

/-! ## Both together -/

/-- A request is answered as the rules have it, and an inspection of the IRI
    finds those faults that concern its profile. Without one it shows the kind,
    the last objects and what is missing. -/
theorem resolve_eq_iff_verdict (g : Graph) (hasMedia : String → Bool) (r : Request) :
    (∀ a, g.resolve hasMedia r = a ↔ g.Verdict hasMedia r a) ∧
    (∀ fault, (Inspection.of g r.iri).fault = some fault ↔
      g.Verdict hasMedia r (.error fault) ∧ fault.IsOfProfile) ∧
    ∀ kind, g.IsOfKind r.iri kind → ∃ facts missing,
      Inspection.of g r.iri = { iri := r.iri, kind := some kind, facts, missing, fault := none } ∧
        AreLastObjects (g.known r.iri) facts ∧ g.IsMissing r.iri kind missing := by
  refine ⟨fun a => ⟨?_, resolve_of_verdict⟩, fun _ => inspection_fault_iff,
    fun _ => inspection_of_isOfKind⟩
  rintro rfl
  exact verdict_resolve g hasMedia r

/-- A store in which a definition is told twice of what kind it is, and is
    reworded. -/
def rewordedGraph : Graph := .ofTriples
  [{ subject := .iri "p", predicate := Vocabulary.hasContribution, object := .iri "c" },
   { subject := .iri "c", predicate := Vocabulary.type, object := .plain "Definition" },
   { subject := .iri "c", predicate := Vocabulary.definitionContent, object := .plain "old" },
   { subject := .iri "c", predicate := Vocabulary.type, object := .plain "Definition" },
   { subject := .iri "c", predicate := Vocabulary.definitionContent, object := .plain "new" }]

theorem inspection_rewordedGraph :
    rewordedGraph.IsOfKind "p" .definition ∧ ∃ facts missing, Inspection.of rewordedGraph "p" =
      { iri := "p", kind := some .definition, facts, missing, fault := none } ∧
        AreLastObjects (rewordedGraph.known "p") facts ∧
        rewordedGraph.IsMissing "p" .definition missing := by
  have h : rewordedGraph.IsOfKind "p" .definition := by
    refine ⟨{ subject := .iri "c", predicate := Vocabulary.type, object := .plain "Definition" },
      ?_, rfl⟩
    rw [kindStatements, known, ← neighbourhood_eq_component]
    decide +kernel
  exact ⟨h, (resolve_eq_iff_verdict rewordedGraph (fun _ => false)
    { iri := "p", label := "l", key := "k", store := "" }).2.2 .definition h⟩

end Graph

end PaperGraph
