import PaperGraph.Proofs.Commitment
import PaperGraph.Proofs.Readings

/-!
# Outputs

The output of a paper is what is left of its lines, one after the other. Only
that of the root has something more in it: the environments of the kinds that
were imported anywhere, before what is left of the last line in which the body
of the document starts.

* `Draft.preamble`: the environments, each once and in the order of the kinds;
* `Buffer.Holds.text_insertEnvironments`: where they go;
* `Draft.Transcribes`: all that is said above, of a draft and the readings of
  the papers' lines; every draft comes from readings
  (`Draft.exists_transcript`).
-/

namespace PaperGraph

open Text

/-! ## Environments -/

/-- The kinds imported but definitions, which need no environment: each once,
    and in their order. -/
def Draft.shown (draft : Draft) : List Kind :=
  Kind.all.filter fun k => k ≠ .definition ∧ k ∈ draft.imported

/-- The environments of the kinds imported. -/
def Draft.preamble (draft : Draft) : List String :=
  draft.shown.filterMap Kind.environment?

theorem environments_eq (kinds : List Kind) :
    (Kind.environments kinds).map (·.2) =
      (Kind.all.filter fun k => k ≠ .definition ∧ k ∈ kinds).filterMap Kind.environment? := by
  rw [Kind.environments, List.map_filterMap, List.filterMap_filter, List.filterMap_filter]
  congr 1
  funext k
  cases k with
  | definition => simp [Kind.environment?]
  | _ => simp [Function.comp_def]

theorem length_filterMap_environment? {kinds : List Kind} (h : .definition ∉ kinds) :
    (kinds.filterMap Kind.environment?).length = kinds.length := by
  induction kinds with
  | nil => rfl
  | cons k kinds ih =>
    rw [List.mem_cons, not_or] at h
    cases k with
    | definition => exact absurd rfl h.1
    | _ => simp [Kind.environment?, ih h.2]

/-! ## The root -/

theorem Root.select_eq_ok {buffers : List Buffer} {n : Fin buffers.length}
    (h : Root.select buffers = .ok n) :
    ∀ m : Fin buffers.length, (buffers.get m).bodyStart?.isSome ↔ m = n := by
  intro m
  rw [Root.select] at h
  split at h
  · next k hcandidates =>
    obtain rfl := Except.ok.inj h
    have hmem : m ∈ Root.candidates buffers ↔ (buffers.get m).bodyStart?.isSome := by
      simp [Root.candidates]
    rw [← hmem, hcandidates, List.mem_singleton]
  · simp at h

/-- The paper of number `n` is the one in which the body of the document starts,
    and `r` is its last line in which it does. -/
structure IsRoot (readings : List (List Reading)) (n : Nat) (before : List Reading) (r : Reading)
    (after : List Reading) : Prop where
  /-- The lines of the paper. -/
  paper : readings[n]? = some (before ++ r :: after)
  /-- The body starts in that line. -/
  starts : r.startsBody
  /-- It starts in no later one. -/
  last : ∀ q ∈ after, ¬ q.startsBody
  /-- It starts in no other paper. -/
  only : ∀ m ≠ n, ∀ others, readings[m]? = some others → ∀ q ∈ others, ¬ q.startsBody

theorem exists_last_start {readings : List Reading} (h : ∃ r ∈ readings, r.startsBody) :
    ∃ before r after, readings = before ++ r :: after ∧ r.startsBody ∧
      ∀ q ∈ after, ¬ q.startsBody := by
  obtain ⟨q, hq, hstart⟩ := h
  have hsome : (readings.reverse.find? (·.startsBody)).isSome :=
    List.find?_isSome.2 ⟨q, List.mem_reverse.2 hq, hstart⟩
  obtain ⟨r, hr⟩ := Option.isSome_iff_exists.1 hsome
  obtain ⟨hr, later, earlier, hreverse, hlater⟩ := List.find?_eq_some_iff_append.1 hr
  refine ⟨earlier.reverse, r, later.reverse, ?_, hr, fun q hq => ?_⟩
  · rw [← List.reverse_reverse readings, hreverse, List.reverse_append, List.reverse_cons,
      List.append_assoc, List.singleton_append]
  · simpa using hlater q (List.mem_reverse.1 hq)

namespace Buffer

variable {b : Buffer} {readings before after : List Reading} {r : Reading}

theorem Holds.text_eq (h : b.Holds readings) : b.text = Reading.texts readings := by
  rw [text, h.lines, List.nil_append, Reading.join_flatMap_pieces]

theorem Holds.isSome_bodyStart?_iff (h : b.Holds readings) :
    b.bodyStart?.isSome ↔ ∃ r ∈ readings, r.startsBody := by
  constructor
  · intro hsome
    by_contra hnone
    rw [h.unmarked fun r hr hstart => hnone ⟨r, hr, hstart⟩] at hsome
    simp at hsome
  · intro hstart
    obtain ⟨before, r, after, he, hr, hafter⟩ := exists_last_start hstart
    rw [h.marked before r after he hr hafter]
    rfl

/-- The place of the body is one of the output. -/
theorem Holds.bodyStart?_le (h : b.Holds readings) {n : Nat} (hn : b.bodyStart? = some n) :
    n ≤ b.lines.length := by
  obtain ⟨before, r, after, rfl, hr, hafter⟩ :=
    exists_last_start (h.isSome_bodyStart?_iff.1 (by rw [hn]; rfl))
  rw [h.marked before r after rfl hr hafter] at hn
  obtain rfl := Option.some.inj hn
  rw [h.lines, List.flatMap_append]
  simp

/-- The environments go before what is left of the last line in which the body
    starts. -/
theorem Holds.text_insertEnvironments (h : b.Holds (before ++ r :: after)) (hr : r.startsBody)
    (hafter : ∀ q ∈ after, ¬ q.startsBody) (environments : List String) :
    (b.insertEnvironments environments).text =
      Reading.texts before ++ String.join environments ++ Reading.texts (r :: after) := by
  have hlines : b.lines = before.flatMap Reading.pieces ++ (r :: after).flatMap Reading.pieces := by
    rw [h.lines, List.nil_append, List.flatMap_append]
  rw [insertEnvironments, h.marked before r after rfl hr hafter]
  simp only [text, hlines, List.nil_append, List.take_left, List.drop_left, String.join_append,
    Reading.join_flatMap_pieces]

end Buffer

/-! ## Drafts -/

/-- What a draft says of papers whose lines were read. -/
structure Draft.Transcribes (draft : Draft) (ask : Resolver) (papers : List (Source × String))
    (readings : List (List Reading)) : Prop where
  /-- All lines of all papers were read. -/
  lines : readings.map (·.map (·.line)) = Line.ofPapers 0 papers
  /-- Beginning with nothing, every line was handled in the state that all
      earlier lines have left, those of earlier papers included. -/
  chain : ∃ s, RunState.Handles ask {} readings.flatten s
  /-- A line without a directive stays as it is. -/
  plain : ∀ r ∈ readings.flatten, Directive.classify r.line.text = none → r.output = .original
  /-- There is one output for every paper. -/
  sources : draft.outputs.map (·.source) = papers.map (·.1)
  /-- The output is what is left of the lines. Only in the root the environments
      go before what is left of the last line in which the body starts. -/
  texts : ∃ n before r after, IsRoot readings n before r after ∧
    (papers[n]?.map (·.1.path)) = some draft.root ∧
    draft.outputs.map (·.text) = (readings.map Reading.texts).set n
      (Reading.texts before ++ String.join draft.preamble ++ Reading.texts (r :: after))
  /-- Every kind but definitions has brought one environment. -/
  environments : draft.preamble.length = draft.shown.length ∧
    draft.environments = draft.shown.length
  /-- A kind was imported if some line has imported a contribution of it. -/
  imported : ∀ k, k ∈ draft.imported ↔ ∃ r ∈ readings.flatten, r.Imports ask k

/-- Changing one element changes one of the values. -/
theorem map_modify {α β : Type} (f : α → α) (g : α → β) {l : List α} {n : Nat} {a : α}
    (h : l[n]? = some a) : (l.modify n f).map g = (l.map g).set n (g (f a)) := by
  refine List.ext_getElem? fun m => ?_
  rw [List.getElem?_map, List.getElem?_modify, List.getElem?_set, List.getElem?_map]
  by_cases hm : n = m
  · subst hm
    obtain ⟨hlength, rfl⟩ := List.getElem?_eq_some_iff.1 h
    simp [hlength]
  · simp [hm]

theorem RunState.texts_draft {s : RunState} {draft : Draft} {readings : List (List Reading)}
    (h : s.draft = .ok draft) (hholds : List.Forall₂ Buffer.Holds s.buffers readings) :
    ∃ n before r after, IsRoot readings n before r after ∧
      (s.buffers[n]?.map (·.source.path)) = some draft.root ∧
      draft.outputs.map (·.text) = (readings.map Reading.texts).set n
        (Reading.texts before ++ String.join draft.preamble ++ Reading.texts (r :: after)) := by
  obtain ⟨n, hroot, h⟩ := bind_eq_ok_iff.1 h
  obtain rfl := Except.ok.inj h
  have hselect := Root.select_eq_ok hroot
  have hlength := hholds.length_eq
  have htexts : s.buffers.map Buffer.text = readings.map Reading.texts := by
    rw [← List.forall₂_eq_eq_eq, List.forall₂_map_left_iff, List.forall₂_map_right_iff]
    exact hholds.imp fun _ _ hb => hb.text_eq
  have hholds (m : Nat) (hm : m < s.buffers.length) : s.buffers[m].Holds readings[m] :=
    (List.forall₂_iff_get.1 hholds).2 m hm (hlength ▸ hm)
  obtain ⟨before, r, after, hlines, hr, hafter⟩ :=
    exists_last_start ((hholds n n.2).isSome_bodyStart?_iff.1 ((hselect n).2 rfl))
  refine ⟨n, before, r, after, ⟨?_, hr, hafter, ?_⟩, ?_, ?_⟩
  · rw [List.getElem?_eq_getElem (hlength ▸ n.2), hlines]
  · -- The buffer of another paper has no place for the body.
    intro m hm others hothers q hq hstart
    obtain ⟨hm', rfl⟩ := List.getElem?_eq_some_iff.1 hothers
    have hsome := (hholds m (hlength ▸ hm')).isSome_bodyStart?_iff.2 ⟨q, hq, hstart⟩
    exact hm (congrArg Fin.val ((hselect ⟨m, hlength ▸ hm'⟩).1 hsome))
  · simp
  · have hroot := hholds n n.2
    rw [hlines] at hroot
    rw [List.map_map]
    change List.map Buffer.text _ = _
    rw [map_modify _ _ (List.getElem?_eq_getElem n.2), htexts,
      hroot.text_insertEnvironments hr hafter, environments_eq]
    rfl

/-- Every draft comes from readings of the papers' lines. -/
theorem Draft.exists_transcript {ask : Resolver} {papers : List (Source × String)} {draft : Draft}
    (h : Draft.ofTexts ask papers = .ok draft) :
    ∃ readings, draft.Transcribes ask papers readings := by
  have hsources := Draft.sources_ofTexts h
  obtain ⟨s, hscan, hdraft⟩ := bind_eq_ok_iff.1 h
  obtain ⟨readings, buffers, hlines, hchain, hbuffers, hholds⟩ :=
    RunState.exists_handles_of_scanAll hscan
  obtain rfl : s.buffers = buffers := hbuffers
  have himported : draft.imported = s.imported := by
    obtain ⟨n, _, hdraft⟩ := bind_eq_ok_iff.1 hdraft
    rw [← Except.ok.inj hdraft]
  refine ⟨readings, hlines, ⟨_, hchain⟩, fun r hr hplain => ?_, hsources, ?_, ⟨?_, ?_⟩, fun k => ?_⟩
  · have hhandle := hchain.handle_of_mem hr
    rw [RunState.handle, hplain] at hhandle
    exact (Prod.mk.inj (Except.ok.inj hhandle)).2.symm
  · obtain ⟨n, before, r, after, hroot, hpath, htexts⟩ := RunState.texts_draft hdraft hholds
    refine ⟨n, before, r, after, hroot, ?_, htexts⟩
    have hpapers : s.buffers.map (·.source) = papers.map (·.1) := RunState.sources_scanAll hscan
    have hpath' : ((s.buffers.map (·.source))[n]?.map (·.path)) = some draft.root := by
      rw [← hpath, List.getElem?_map, Option.map_map]
      rfl
    rw [hpapers, List.getElem?_map, Option.map_map] at hpath'
    exact hpath'
  · exact length_filterMap_environment? (by simp [shown])
  · obtain ⟨n, _, hdraft⟩ := bind_eq_ok_iff.1 hdraft
    obtain rfl := Except.ok.inj hdraft
    simp only [shown]
    rw [environments_eq, length_filterMap_environment? (by simp)]
  · rw [himported]
    have hmem := hchain.mem_imported_iff k
    simpa [RunState.gathered] using hmem

namespace Run

variable {ask : Resolver} {options : RunOptions} {id : String} {papers : List (Source × String)}
  {t : Tree} {report : Report}

/-- A run that succeeds transcribes its papers, line by line. The place of the
    body is always one of the output. -/
theorem transcribes_on_ofTexts (h : ((ofTexts ask options id papers).on t).1 = .ok report) :
    (∃ readings, report.draft.Transcribes ask papers readings) ∧
    ∃ s, RunState.scanAll ask {} papers = .ok s ∧
      ∀ b ∈ s.buffers, ∀ n, b.bodyStart? = some n → n ≤ b.lines.length := by
  have hdraft := draft_of_ofTexts h
  refine ⟨Draft.exists_transcript hdraft, ?_⟩
  obtain ⟨s, hscan, _⟩ := bind_eq_ok_iff.1 hdraft
  obtain ⟨readings, buffers, _, _, hbuffers, hholds⟩ := RunState.exists_handles_of_scanAll hscan
  obtain rfl : s.buffers = buffers := hbuffers
  refine ⟨s, hscan, fun b hb n hn => ?_⟩
  obtain ⟨m, hm, rfl⟩ := List.getElem_of_mem hb
  have hheld := (List.forall₂_iff_get.1 hholds).2 m hm (hholds.length_eq ▸ hm)
  exact Buffer.Holds.bodyStart?_le hheld hn

/-- A paper without a body, and one that starts its body twice. -/
def twicePapers : List (Source × String) :=
  [({ path := ⟨"a.rdf.tex"⟩, output := ⟨"a.tex"⟩ },
      "\\rdfimport\x7bl\x7d\x7bk\x7d\x7bi\x7d\x7bs\x7d\n"),
   ({ path := ⟨"b.rdf.tex"⟩, output := ⟨"b.tex"⟩ },
      "\\rdfprefix\x7bp\x7d\x7bq\x7d\n\\begin\x7bdocument\x7d\nplain\n" ++
      "\\begin\x7bdocument\x7d\n\\rdfimport\x7bl\x7d\x7bk\x7d\x7bi\x7d\x7bs\x7d\n")]

/-- The declaration of a short form is left out and both imports are shown. Their
    one environment goes before the second start of the body. -/
theorem read_twicePapers :
    let ask : Resolver := fun _ _ => .ok { snippet := "figure", kind := .figure }
    let outcome := (ofTexts ask sampleOptions "a1" twicePapers).on {}
    (∃ report, outcome.1 = .ok report ∧
      ∃ readings, report.draft.Transcribes ask twicePapers readings) ∧
    outcome.1.toOption.map (fun r => r.draft.outputs.map (·.text)) =
      some ["figure\n", "\\begin\x7bdocument\x7d\nplain\n" ++
        "\\usepackage[export]\x7badjustbox\x7d\n\\begin\x7bdocument\x7d\nfigure\n"] := by
  intro ask outcome
  have htexts : outcome.1.toOption.map (fun r => r.draft.outputs.map (·.text)) =
      some ["figure\n", "\\begin\x7bdocument\x7d\nplain\n" ++
        "\\usepackage[export]\x7badjustbox\x7d\n\\begin\x7bdocument\x7d\nfigure\n"] := by
    decide +kernel
  obtain ⟨report, hreport, _⟩ := Option.map_eq_some_iff.1 htexts
  rw [toOption_eq_some_iff] at hreport
  exact ⟨⟨report, hreport, (transcribes_on_ofTexts hreport).1⟩, htexts⟩

end Run

end PaperGraph
