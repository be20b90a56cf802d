import PaperGraph.Proofs.Resolution
import PaperGraph.Proofs.Steps

/-!
# Graphs with the same statements

A store is a set of statements: in which order they are made, and how often each,
has no part in whether there is a profile of an IRI, of what kind it is, of what it
tells and what it lacks. The order only decides between several objects of one
predicate, so that without such predicates two stores with the same statements
give the same answers.

* `Graph.SameStatements`: graphs with the same set of statements;
* `Graph.SameStatements.known_perm`: they know the same of an IRI, in some order;
* `Profile.agree_of_sameStatements`: their profiles differ in objects at most;
* `Graph.SingleValued`: no predicate has two objects in the neighbourhood of a
  term;
* `Graph.resolve_sameStatements`: both together.
-/

namespace PaperGraph

namespace Graph

variable {g h : Graph} {root a b : Term} {iri p v : String}

/-- The graphs have the same statements, in whatever order and however often. -/
def SameStatements (g h : Graph) : Prop :=
  ∀ t, t ∈ g.triples ↔ t ∈ h.triples

theorem SameStatements.symm (hsame : g.SameStatements h) : h.SameStatements g :=
  fun t => (hsame t).symm

theorem SameStatements.linked_iff (hsame : g.SameStatements h) : g.Linked a b ↔ h.Linked a b :=
  exists_congr fun t => and_congr_left fun _ => hsame t

theorem SameStatements.connected (hsame : g.SameStatements h) (hb : g.Connected root b) :
    h.Connected root b := by
  induction hb with
  | refl => exact .refl
  | step _ hlink ih => exact .step ih (hsame.linked_iff.1 hlink)

theorem SameStatements.component_iff (hsame : g.SameStatements h) {t : Triple} :
    t ∈ g.component root ↔ t ∈ h.component root := by
  rw [mem_component_iff, mem_component_iff]
  exact and_congr (hsame t) ⟨hsame.connected, hsame.symm.connected⟩

/-- What is known of an IRI are the same statements, each once. -/
theorem SameStatements.known_perm (hsame : g.SameStatements h) : (g.known iri).Perm (h.known iri) :=
  (List.perm_ext_iff_of_nodup (nodup_eraseDups _) (nodup_eraseDups _)).2 fun t => by
    rw [List.mem_eraseDups, List.mem_eraseDups, hsame.component_iff]

theorem SameStatements.kindStatements_perm (hsame : g.SameStatements h) :
    (g.kindStatements iri).Perm (h.kindStatements iri) :=
  hsame.known_perm.filter _

theorem SameStatements.isOfKind (hsame : g.SameStatements h) {kind : Kind}
    (hkind : g.IsOfKind iri kind) : h.IsOfKind iri kind := by
  obtain ⟨t, ht, hname⟩ := hkind
  exact ⟨t, List.perm_singleton.1 (ht ▸ hsame.kindStatements_perm.symm), hname⟩

/-- In the neighbourhood of the root no predicate has two different objects. -/
def SingleValued (g : Graph) (root : Term) : Prop :=
  ∀ t ∈ g.neighbourhood root, ∀ u ∈ g.neighbourhood root,
    t.predicate = u.predicate → t.object.value = u.object.value

theorem SameStatements.singleValued (hsame : g.SameStatements h) (hg : g.SingleValued root) :
    h.SingleValued root := by
  simp only [SingleValued, neighbourhood_eq_component, ← hsame.component_iff] at hg ⊢
  exact hg

end Graph

/-! ## Profiles -/

namespace Profile

variable {g h : Graph} {iri x v : String}

/-- The profiles are of the same kind, tell something of the same predicates, and
    lack the same ones. -/
structure Alike (p q : Profile) : Prop where
  /-- The kind is the same. -/
  kind : p.kind = q.kind
  /-- The predicates that have objects are the same. -/
  predicates : ∀ x, x ∈ p.facts.map (·.1) ↔ x ∈ q.facts.map (·.1)
  /-- So are those that are missing. -/
  missing : p.missing = q.missing

theorem mem_keys_factsOf {triples : List Triple} :
    x ∈ (factsOf triples).map (·.1) ↔ ∃ t ∈ triples, t.predicate = x := by
  rw [factsOf, Facts.mem_keys_flatten]
  simp

/-- Without predicates that have two objects it does not matter which statement is
    the last one. -/
theorem lookup_factsOf_iff (hg : g.SingleValued (.iri iri)) :
    (factsOf (g.known iri)).lookup x = some v ↔
      ∃ t ∈ g.known iri, t.predicate = x ∧ t.object.value = v := by
  have hfound {t : Triple} (ht : (g.known iri).reverse.find? (·.predicate = x) = some t) :
      t ∈ g.known iri ∧ t.predicate = x :=
    ⟨List.mem_reverse.1 (List.mem_of_find?_eq_some ht), by simpa using List.find?_some ht⟩
  have hmem {t : Triple} (ht : t ∈ g.known iri) : t ∈ g.neighbourhood (.iri iri) := by
    rw [Graph.neighbourhood_eq_component]
    exact List.mem_eraseDups.1 ht
  rw [areLastObjects_factsOf, Option.map_eq_some_iff]
  constructor
  · rintro ⟨t, ht, hv⟩
    exact ⟨t, (hfound ht).1, (hfound ht).2, hv⟩
  · rintro ⟨t, ht, hx, rfl⟩
    have hsome : ((g.known iri).reverse.find? (·.predicate = x)).isSome :=
      List.find?_isSome.2 ⟨t, List.mem_reverse.2 ht, decide_eq_true hx⟩
    obtain ⟨u, hu⟩ := Option.isSome_iff_exists.1 hsome
    obtain ⟨hmemu, hux⟩ := hfound hu
    exact ⟨u, hu, hg u (hmem hmemu) t (hmem ht) (hux.trans hx.symm)⟩

theorem alike_of_sameStatements (hsame : g.SameStatements h) (kind : Kind) :
    Alike { kind, facts := factsOf (g.known iri) } { kind, facts := factsOf (h.known iri) } := by
  have hpredicates (x : String) : x ∈ (factsOf (g.known iri)).map (·.1) ↔
      x ∈ (factsOf (h.known iri)).map (·.1) := by
    rw [mem_keys_factsOf, mem_keys_factsOf]
    exact exists_congr fun t => and_congr_left fun _ => hsame.known_perm.mem_iff
  exact ⟨rfl, hpredicates, Kind.lacks_iff.1 ((Kind.lacks_missing _ _).congr hpredicates)⟩

theorem lookup_of_sameStatements (hsame : g.SameStatements h) (hg : g.SingleValued (.iri iri))
    (x : String) : (factsOf (g.known iri)).lookup x = (factsOf (h.known iri)).lookup x := by
  refine Option.ext fun v => ?_
  rw [lookup_factsOf_iff hg, lookup_factsOf_iff (hsame.singleValued hg)]
  exact exists_congr fun t => and_congr_left fun _ => hsame.known_perm.mem_iff

/-- Both graphs have the same fault to find with an IRI, or profiles that differ in
    objects at most. -/
theorem agree_of_sameStatements (hsame : g.SameStatements h) (iri : String) :
    Agree (fun p q => p.Alike q ∧ (g.SingleValued (.iri iri) →
      ∀ x, p.facts.lookup x = q.facts.lookup x)) (Profile.of g iri) (Profile.of h iri) := by
  have hnil : g.component (.iri iri) = [] ↔ h.component (.iri iri) = [] := by
    simp only [List.eq_nil_iff_forall_not_mem, hsame.component_iff]
  have hkinds : (g.kindStatements iri).Perm (h.kindStatements iri) := hsame.kindStatements_perm
  rcases of_cases g iri with hnone | ⟨hknown, hone⟩ | ⟨t, ht, hname⟩ | ⟨kind, hkind⟩
  · rw [of_unknown hnone, of_unknown (hnil.1 hnone)]
    exact .error _
  · rw [of_unclassified hknown hone,
      of_unclassified (mt hnil.2 hknown) (hkinds.length_eq ▸ hone), hkinds.length_eq]
    exact .error _
  · rw [of_unsupported ht hname,
      of_unsupported (List.perm_singleton.1 (ht ▸ hkinds.symm)) hname]
    exact .error _
  · rw [of_isOfKind hkind, of_isOfKind (hsame.isOfKind hkind)]
    exact .ok ⟨alike_of_sameStatements hsame kind, lookup_of_sameStatements hsame⟩

end Profile

/-! ## Answers -/

namespace Graph

variable {g h : Graph} {r : Request} {p q : Profile}

/-- Profiles that differ in no object either are answered with alike. -/
theorem resolve_of_alike (hp : Profile.of g r.iri = .ok p) (hq : Profile.of h r.iri = .ok q)
    (halike : p.Alike q) (hobjects : ∀ x, p.facts.lookup x = q.facts.lookup x)
    (hasMedia : String → Bool) : g.resolve hasMedia r = h.resolve hasMedia r := by
  have hvalue (x : String) : p.facts.valueOf x = q.facts.valueOf x := by
    rw [Facts.valueOf, Facts.valueOf, hobjects]
  rw [resolve_of_ok hp, resolve_of_ok hq, halike.missing, halike.kind, hvalue,
    Snippet.render_congr hobjects]

/-- Two graphs with the same statements have the same fault to find with an IRI, or
    profiles of it of the same kind, which tell of the same predicates and lack the
    same ones. If no predicate has two objects there, the profiles have the same
    objects and all requests for the IRI are answered alike. -/
theorem resolve_sameStatements (hsame : g.SameStatements h) (iri : String) :
    Agree (fun p q => p.Alike q ∧ (g.SingleValued (.iri iri) →
      ∀ x, p.facts.lookup x = q.facts.lookup x)) (Profile.of g iri) (Profile.of h iri) ∧
    (g.SingleValued (.iri iri) → ∀ hasMedia request, request.iri = iri →
      g.resolve hasMedia request = h.resolve hasMedia request) := by
  have hagree := Profile.agree_of_sameStatements hsame iri
  refine ⟨hagree, ?_⟩
  rintro hsingle hasMedia request rfl
  generalize hp : Profile.of g request.iri = found at hagree
  generalize hq : Profile.of h request.iri = found' at hagree
  cases hagree with
  | error fault => rw [resolve_of_error hp, resolve_of_error hq]
  | ok hpq => exact resolve_of_alike hp hq hpq.1 (hpq.2 hsingle) hasMedia

/-- A figure that is published, with one of its statements repeated. -/
def orderedFigure : Graph := .ofTriples
  [{ subject := .iri "p", predicate := Vocabulary.hasContribution, object := .iri "f" },
   { subject := .iri "f", predicate := Vocabulary.type, object := .plain "Figure" },
   { subject := .iri "f", predicate := Vocabulary.figureUrl, object := .plain "plot" },
   { subject := .iri "f", predicate := Vocabulary.type, object := .plain "Figure" },
   { subject := .iri "f", predicate := Vocabulary.figureMime, object := .plain "image/png" },
   { subject := .blank "n", predicate := Vocabulary.figureDescription, object := .plain "A plot" },
   { subject := .blank "n", predicate := "about", object := .iri "f" }]

/-- The same statements in another order, with others repeated. -/
def shuffledFigure : Graph := .ofTriples
  [{ subject := .blank "n", predicate := "about", object := .iri "f" },
   { subject := .iri "f", predicate := Vocabulary.figureMime, object := .plain "image/png" },
   { subject := .blank "n", predicate := "about", object := .iri "f" },
   { subject := .iri "f", predicate := Vocabulary.type, object := .plain "Figure" },
   { subject := .iri "p", predicate := Vocabulary.hasContribution, object := .iri "f" },
   { subject := .blank "n", predicate := Vocabulary.figureDescription, object := .plain "A plot" },
   { subject := .iri "f", predicate := Vocabulary.figureUrl, object := .plain "plot" },
   { subject := .iri "p", predicate := Vocabulary.hasContribution, object := .iri "f" }]

theorem resolve_shuffledFigure :
    let request : Request := { iri := "p", label := "l", key := "k", store := "MinSKG" }
    orderedFigure.SameStatements shuffledFigure ∧ orderedFigure.SingleValued (.iri "p") ∧
    (Agree (fun p q => p.Alike q ∧ ∀ x, p.facts.lookup x = q.facts.lookup x)
      (Profile.of orderedFigure "p") (Profile.of shuffledFigure "p")) ∧
    orderedFigure.resolve (· = "plot") request = shuffledFigure.resolve (· = "plot") request ∧
    (Profile.of orderedFigure "p").toOption.map (·.kind) = some .figure := by
  intro request
  have hthere : ∀ t ∈ orderedFigure.triples, t ∈ shuffledFigure.triples := by decide +kernel
  have hback : ∀ t ∈ shuffledFigure.triples, t ∈ orderedFigure.triples := by decide +kernel
  have hsame : orderedFigure.SameStatements shuffledFigure := fun t => ⟨hthere t, hback t⟩
  have hsingle : orderedFigure.SingleValued (.iri "p") := by
    rw [SingleValued]
    decide +kernel
  obtain ⟨hprofiles, hanswers⟩ := resolve_sameStatements hsame "p"
  exact ⟨hsame, hsingle, hprofiles.imp fun _ _ _ _ h => ⟨h.1, h.2 hsingle⟩,
    hanswers hsingle _ request rfl, by decide +kernel⟩

end Graph

end PaperGraph
