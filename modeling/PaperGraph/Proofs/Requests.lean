import PaperGraph.Proofs.Handling
import PaperGraph.Proofs.Resolution
import PaperGraph.Proofs.Scanning
import PaperGraph.Run.Resolver

/-!
# What a run asks for

A run asks the store for what its imports name, line by line, and nothing else
of a store matters to it.

* `RunState.requests`: the requests of a run, with their moments;
* `RunState.scanAll_congr`: two stores that answer them alike are alike for the
  run;
* `MinSkg.lookedUp?`: the one thing that an answer has from the tree, whether
  there is a file for the image of a figure (`MinSkg.resolver_congr`).
-/

namespace PaperGraph

open Text

namespace RunState

variable {ask ask' : Resolver} {answer answer' : Request → Answer} {s : RunState} {b : Buffer}
  {place : Place} {line before found : List Char}

/-- The requests that lines of a paper make, of which the first has that number,
    as long as the run goes on. -/
def requestsOfLines (ask : Resolver) (s : RunState) (b : Buffer) :
    (number : Nat) → List (List Char) → List (Moment × Request)
  | _, [] => []
  | number, line :: rest =>
    let moment : Moment := { paper := s.buffers.length, line := number }
    (request? s.forms { path := b.source.path, line := number } line).toList.map (moment, ·) ++
      match s.scanLine ask b number line with
      | .ok (s', b') => requestsOfLines ask s' b' (number + 1) rest
      | .error _ => []

/-- The requests that papers make, as long as the run goes on. -/
def requests (ask : Resolver) (s : RunState) : List (Source × String) → List (Moment × Request)
  | [] => []
  | (source, text) :: rest =>
    s.requestsOfLines ask { source } 1 (inclusiveLines text.toList) ++
      match s.scan ask source text with
      | .ok s' => requests ask s' rest
      | .error _ => []

theorem importContent_congr
    (h : ∀ request, request? s.forms place line = some request → answer request = answer' request)
    (hline : Directive.classify line = some (.importing, before, found)) :
    s.importContent answer place before found = s.importContent answer' place before found := by
  rw [importContent, importContent]
  split
  · rfl
  · next hcheck => rw [h _ (request?_eq_some hline hcheck rfl)]
  · rfl

/-- A line asks for one thing at most. -/
theorem handle_congr
    (h : ∀ request, request? s.forms place line = some request → answer request = answer' request) :
    s.handle answer place line = s.handle answer' place line := by
  rw [handle, handle]
  split
  · rfl
  · rfl
  · next hline => rw [importContent_congr h hline]
  · rfl
  · rfl

theorem scanLine_congr {number : Nat}
    (h : ∀ r ∈ (request? s.forms { path := b.source.path, line := number } line).toList.map
      (({ paper := s.buffers.length, line := number } : Moment), ·), ask r.1 r.2 = ask' r.1 r.2) :
    s.scanLine ask b number line = s.scanLine ask' b number line := by
  rw [scanLine_eq, scanLine_eq,
    handle_congr fun request hrequest => h (_, request) (by simp [hrequest])]

theorem scanLines_congr {number : Nat} {lines : List (List Char)}
    (h : ∀ r ∈ s.requestsOfLines ask b number lines, ask r.1 r.2 = ask' r.1 r.2) :
    s.scanLines ask b number lines = s.scanLines ask' b number lines := by
  induction lines generalizing s b number with
  | nil => rfl
  | cons line rest ih =>
    rw [requestsOfLines] at h
    obtain ⟨hfirst, hrest⟩ := List.forall_mem_append.1 h
    -- After a line that is answered alike both go on from the same state.
    rw [scanLines, scanLines, ← scanLine_congr hfirst]
    cases hscan : s.scanLine ask b number line with
    | error f => rfl
    | ok r =>
      rw [hscan] at hrest
      exact ih hrest

theorem scan_congr {source : Source} {text : String}
    (h : ∀ r ∈ s.requestsOfLines ask { source } 1 (inclusiveLines text.toList),
      ask r.1 r.2 = ask' r.1 r.2) :
    s.scan ask source text = s.scan ask' source text := by
  rw [scan, scan, scanLines_congr h]

theorem requestsOfLines_congr {number : Nat} {lines : List (List Char)}
    (h : ∀ r ∈ s.requestsOfLines ask b number lines, ask r.1 r.2 = ask' r.1 r.2) :
    s.requestsOfLines ask b number lines = s.requestsOfLines ask' b number lines := by
  induction lines generalizing s b number with
  | nil => rfl
  | cons line rest ih =>
    rw [requestsOfLines] at h
    obtain ⟨hfirst, hrest⟩ := List.forall_mem_append.1 h
    rw [requestsOfLines, requestsOfLines, ← scanLine_congr hfirst]
    cases hscan : s.scanLine ask b number line with
    | error f => rfl
    | ok r =>
      rw [hscan] at hrest
      exact congrArg _ (ih hrest)

/-- What a run comes to depends on the answers to its requests only. -/
theorem scanAll_congr {papers : List (Source × String)}
    (h : ∀ r ∈ s.requests ask papers, ask r.1 r.2 = ask' r.1 r.2) :
    s.scanAll ask papers = s.scanAll ask' papers := by
  induction papers generalizing s with
  | nil => rfl
  | cons paper rest ih =>
    rw [requests] at h
    obtain ⟨hfirst, hrest⟩ := List.forall_mem_append.1 h
    rw [scanAll, scanAll, ← scan_congr hfirst]
    cases hscan : s.scan ask paper.1 paper.2 with
    | error f => rfl
    | ok s' =>
      rw [hscan] at hrest
      exact ih hrest

/-- What a run asks for depends on the answers to its requests only. -/
theorem requests_congr {papers : List (Source × String)}
    (h : ∀ r ∈ s.requests ask papers, ask r.1 r.2 = ask' r.1 r.2) :
    s.requests ask papers = s.requests ask' papers := by
  induction papers generalizing s with
  | nil => rfl
  | cons paper rest ih =>
    rw [requests] at h
    obtain ⟨hfirst, hrest⟩ := List.forall_mem_append.1 h
    rw [requests, requests, ← scan_congr hfirst, requestsOfLines_congr hfirst]
    cases hscan : s.scan ask paper.1 paper.2 with
    | error f => rfl
    | ok s' =>
      rw [hscan] at hrest
      exact congrArg _ (ih hrest)

end RunState

/-! ## Answers of the store -/

theorem Store.ask_congr {first second : Store} {r : Request} (hname : first.name = second.name)
    (h : sameStoreName r.store first.name → first.answer r = second.answer r)
    (limit? : Option Nat) (helper : Helper) :
    first.ask r limit? helper = second.ask r limit? helper := by
  simp only [ask, Session.call, ← hname]
  by_cases hsame : sameStoreName r.store first.name
  · simp only [Session.signalsOf, h hsame]
  · simp only [if_pos hsame]

namespace Graph

variable {g : Graph} {hasMedia hasMedia' : String → Bool} {r : Request}

/-- The URL of the image that a figure needs, if nothing else is missing. -/
def imageUrl? (g : Graph) (iri : String) : Option String :=
  match Profile.of g iri with
  | .ok p =>
    if p.missing = [] ∧ p.kind = .figure then some (p.facts.valueOf Vocabulary.figureUrl) else none
  | .error _ => none

theorem resolve_congr (h : ∀ url, g.imageUrl? r.iri = some url → hasMedia url = hasMedia' url) :
    g.resolve hasMedia r = g.resolve hasMedia' r := by
  rw [imageUrl?] at h
  cases hprofile : Profile.of g r.iri with
  | error fault => rw [resolve_of_error hprofile, resolve_of_error hprofile]
  | ok p =>
    rw [resolve_of_ok hprofile, resolve_of_ok hprofile]
    by_cases hmissing : p.missing ≠ []
    · rw [if_pos hmissing, if_pos hmissing]
    · rw [if_neg hmissing, if_neg hmissing]
      by_cases hfigure : p.kind = .figure
      · rw [h (p.facts.valueOf Vocabulary.figureUrl) (by
          simp only [hprofile, hfigure, not_not.1 hmissing, and_self, if_true])]
      · rw [if_neg fun hno => hfigure hno.1, if_neg fun hno => hfigure hno.1]

end Graph

namespace MinSkg

variable {s : MinSkg} {r : Request} {t t' : Tree}

/-- The URL of an image for which the store has to find a file to grant a
    request. -/
def lookedUp? (s : MinSkg) (r : Request) : Option String :=
  if sameStoreName r.store name then s.graph.imageUrl? r.iri else none

/-- Of the media of a tree it only matters whether this URL is found. -/
theorem resolver_congr (h : ∀ url, s.lookedUp? r = some url →
      t'.hasMedia s.media url = t.hasMedia s.media url) (limit? : Option Nat) (moment : Moment) :
    s.resolver t' limit? moment r = s.resolver t limit? moment r := by
  have hsame : (s.store t').name = (s.store t).name := rfl
  have hanswer (hname : sameStoreName r.store name) :
      (s.store t').answer r = (s.store t).answer r :=
    Graph.resolve_congr fun url hurl => h url (by rw [lookedUp?, if_pos hname, hurl])
  exact Store.ask_congr hsame hanswer limit? (.answering 0)

end MinSkg

end PaperGraph
