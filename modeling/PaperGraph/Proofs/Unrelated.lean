import PaperGraph.Proofs.Connection
import PaperGraph.Store.Profile

/-!
# Unrelated statements

What a graph states of things that are not connected with an IRI has no part in
what is found of the IRI. Such statements may be put anywhere among the others,
share literals and predicates with them, and form circles of their own.

* `Interleaving`: a list made of two others, each in its order;
* `Graph.Unrelated`: statements about nothing, and saying nothing, that is
  connected with a term;
* `Graph.connected_iff_of_unrelated`: they connect nothing more with it;
* `Graph.answers_of_unrelated`: the neighbourhood, the profile and the answer to a
  request stay the same.
-/

namespace PaperGraph

/-! ## Lists made of two others -/

/-- The list `whole` is made of `first` and `second`, each in its order. -/
inductive Interleaving {α : Type} : (first second whole : List α) → Prop where
  /-- There is nothing left of either. -/
  | nil : Interleaving [] [] []
  /-- The next member is from the first list. -/
  | first {a : α} {first second whole : List α} :
      Interleaving first second whole → Interleaving (a :: first) second (a :: whole)
  /-- The next member is from the second list. -/
  | second {a : α} {first second whole : List α} :
      Interleaving first second whole → Interleaving first (a :: second) (a :: whole)

namespace Interleaving

variable {α : Type} {first second whole : List α}

theorem mem_iff (h : Interleaving first second whole) {a : α} :
    a ∈ whole ↔ a ∈ first ∨ a ∈ second := by
  induction h with
  | nil => simp
  | first _ ih => rw [List.mem_cons, List.mem_cons, ih, or_assoc]
  | second _ ih => rw [List.mem_cons, List.mem_cons, ih, or_left_comm]

/-- What keeps nothing of the second list keeps the same of the whole as of the
    first. -/
theorem filter_eq (h : Interleaving first second whole) {p : α → Bool}
    (hsecond : ∀ a ∈ second, ¬ p a) : whole.filter p = first.filter p := by
  induction h with
  | nil => rfl
  | first _ ih => rw [List.filter_cons, List.filter_cons, ih hsecond]
  | second _ ih =>
    obtain ⟨ha, hsecond⟩ := List.forall_mem_cons.1 hsecond
    rw [List.filter_cons_of_neg ha, ih hsecond]

end Interleaving

/-! ## Statements put among others -/

namespace Graph

variable {g whole : Graph} {root a b : Term} {extra : List Triple}

/-- No statement is about a term connected with the root, and none has such a
    term for its object. A literal connects nothing, so it may be shared. -/
def Unrelated (g : Graph) (root : Term) (extra : List Triple) : Prop :=
  ∀ t ∈ extra, ¬ g.Connected root t.subject ∧ (t.object.isNode → ¬ g.Connected root t.object)

theorem linked_iff_of_interleaving (h : Interleaving g.triples extra whole.triples) :
    whole.Linked a b ↔ g.Linked a b ∨ (ofTriples extra).Linked a b := by
  simp only [Linked, ofTriples, h.mem_iff, or_and_right, exists_or]

/-- No link of an unrelated statement leads away from what is connected with the
    root. -/
theorem Unrelated.not_linked (h : g.Unrelated root extra) (ha : g.Connected root a) :
    ¬ (ofTriples extra).Linked a b := by
  rintro ⟨t, ht, hnode, ⟨rfl, _⟩ | ⟨rfl, _⟩⟩
  · exact (h t ht).1 ha
  · exact (h t ht).2 hnode ha

/-- Unrelated statements connect nothing more with the root. -/
theorem connected_iff_of_unrelated (h : g.Unrelated root extra)
    (hmix : Interleaving g.triples extra whole.triples) :
    whole.Connected root b ↔ g.Connected root b := by
  constructor
  · intro hb
    induction hb with
    | refl => exact .refl
    | step _ hlink ih =>
      -- The chain so far is one of the graph, and only the graph goes on from it.
      rcases (linked_iff_of_interleaving hmix).1 hlink with hlink | hlink
      · exact .step ih hlink
      · exact absurd hlink (h.not_linked ih)
  · intro hb
    induction hb with
    | refl => exact .refl
    | step _ hlink ih => exact .step ih ((linked_iff_of_interleaving hmix).2 (.inl hlink))

theorem neighbourhood_of_unrelated (h : g.Unrelated root extra)
    (hmix : Interleaving g.triples extra whole.triples) :
    whole.neighbourhood root = g.neighbourhood root := by
  classical
  rw [neighbourhood_eq_component, neighbourhood_eq_component]
  calc whole.component root
      = whole.triples.filter fun t => g.Connected root t.subject :=
        List.filter_congr fun t _ => decide_eq_decide.2 (connected_iff_of_unrelated h hmix)
    _ = g.component root := hmix.filter_eq fun t ht => by simpa using (h t ht).1

/-- What is found of an IRI, and what is answered to a request for it, does not
    depend on unrelated statements, wherever they stand among the others. -/
theorem answers_of_unrelated {iri : String} (h : g.Unrelated (.iri iri) extra)
    (hmix : Interleaving g.triples extra whole.triples) :
    whole.neighbourhood (.iri iri) = g.neighbourhood (.iri iri) ∧
    Profile.of whole iri = Profile.of g iri ∧
    ∀ hasMedia request, request.iri = iri →
      whole.resolve hasMedia request = g.resolve hasMedia request := by
  have hknown := neighbourhood_of_unrelated h hmix
  have hprofile : Profile.of whole iri = Profile.of g iri := by
    rw [Profile.of, Profile.of, hknown]
  refine ⟨hknown, hprofile, ?_⟩
  rintro hasMedia request rfl
  rw [resolve, resolve, hprofile]

/-- A definition with a note on it. -/
def notedGraph : Graph := .ofTriples
  [{ subject := .iri "c", predicate := Vocabulary.type, object := .plain "Definition" },
   { subject := .blank "n", predicate := "about", object := .iri "c" },
   { subject := .iri "c", predicate := Vocabulary.definitionContent, object := .plain "same" }]

/-- Another definition with the same content, in a circle with its publication. -/
def circledStatements : List Triple :=
  [{ subject := .iri "d", predicate := "about", object := .blank "m" },
   { subject := .iri "d", predicate := Vocabulary.definitionContent, object := .plain "same" },
   { subject := .blank "m", predicate := Vocabulary.type, object := .plain "Definition" },
   { subject := .blank "m", predicate := "about", object := .iri "d" }]

/-- Both, in turns. -/
def mixedGraph : Graph := .ofTriples
  [{ subject := .iri "d", predicate := "about", object := .blank "m" },
   { subject := .iri "c", predicate := Vocabulary.type, object := .plain "Definition" },
   { subject := .iri "d", predicate := Vocabulary.definitionContent, object := .plain "same" },
   { subject := .blank "m", predicate := Vocabulary.type, object := .plain "Definition" },
   { subject := .blank "n", predicate := "about", object := .iri "c" },
   { subject := .iri "c", predicate := Vocabulary.definitionContent, object := .plain "same" },
   { subject := .blank "m", predicate := "about", object := .iri "d" }]

theorem profile_mixedGraph :
    notedGraph.Unrelated (.iri "c") circledStatements ∧
    Interleaving notedGraph.triples circledStatements mixedGraph.triples ∧
    Profile.of mixedGraph "c" = .ok {
      kind := .definition
      facts := [(Vocabulary.type, "Definition"), ("about", "c"),
        (Vocabulary.definitionContent, "same")] } := by
  have hunrelated : notedGraph.Unrelated (.iri "c") circledStatements := by
    simp only [Unrelated, ← mem_reachable_iff]
    decide +kernel
  have hmix : Interleaving notedGraph.triples circledStatements mixedGraph.triples :=
    .second (.first (.second (.second (.first (.first (.second .nil))))))
  refine ⟨hunrelated, hmix, ?_⟩
  rw [(answers_of_unrelated hunrelated hmix).2.1]
  decide +kernel

end Graph

end PaperGraph
