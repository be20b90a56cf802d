import PaperGraph.Proofs.Rendering
import PaperGraph.Proofs.Occurrences

/-!
# Independence of the store

What the store answers shows in the lines that import something, in the kinds
imported and in what the author is told of those lines, and nowhere else: two
runs over the same papers, with whatever answers, go on side by side.

* `RunState.Alike`: what two states have in common all along;
* `RunState.agree_handle`, `RunState.agree_scanAll`: a line, and all papers, of two
  such runs;
* `Report.Alike`: what the reports of two runs have in common;
* `Run.alike_on`: two dry runs fail in the same way or have it.
-/

namespace PaperGraph

open Text

/-- The line is an import with all its arguments. -/
def ImportsContent (line : List Char) : Prop :=
  ∃ before found split, Directive.classify line = some (.importing, before, found) ∧
    Groups.split found = .ok split ∧ split.groups.length = Directive.importing.arity

/-- The diagnostics but for those on imports that got nothing. -/
def Diagnostics.others (ds : Diagnostics) : Diagnostics :=
  ds.filter (·.code ≠ Directive.importing.code "unresolved")

@[simp]
theorem Diagnostics.others_append (ds es : Diagnostics) :
    others (ds ++ es) = others ds ++ others es :=
  List.filter_append ..

/-! ## States -/

/-- The buffers belong to the same paper, and the body of the document starts
    in both or in none. -/
structure Buffer.Alike (b b' : Buffer) : Prop where
  /-- The papers are the same. -/
  source : b.source = b'.source
  /-- So is whether there is a body. -/
  body : b.bodyStart?.isSome = b'.bodyStart?.isSome

namespace RunState

/-- The states differ at most in the outputs of the papers, in the kinds
    imported and in the diagnostics on imports that got nothing. -/
structure Alike (s s' : RunState) : Prop where
  /-- The short forms are the same. -/
  forms : s.forms = s'.forms
  /-- The exports are the same. -/
  exports : s.exports = s'.exports
  /-- The other diagnostics are the same. -/
  diagnostics : s.diagnostics.others = s'.diagnostics.others
  /-- The outputs are alike. -/
  buffers : List.Forall₂ Buffer.Alike s.buffers s'.buffers

variable {s s' : RunState} {b b' : Buffer} {ask ask' : Resolver} {answer answer' : Request → Answer}
  {place : Place} {line before found : List Char}

theorem Alike.report (h : s.Alike s') (d : Diagnostic) : (s.report d).Alike (s'.report d) where
  forms := h.forms
  exports := h.exports
  diagnostics := by simp [h.diagnostics]
  buffers := h.buffers

theorem others_report_unresolvedWarning (s : RunState) (iri : String) (fault : ResolveFault)
    (place : Place) :
    (s.report (unresolvedWarning iri fault place)).diagnostics.others = s.diagnostics.others := by
  simp [Diagnostics.others, unresolvedWarning]

/-- The states are alike after a line, and so is what has become of it unless it
    imports something. -/
structure AlikeAfter (line : List Char) (r r' : RunState × LineOutput) : Prop where
  /-- The states are alike. -/
  state : r.1.Alike r'.1
  /-- What has become of the line is the same. -/
  output : r.2 ≠ r'.2 → ImportsContent line

/-! ## Lines -/

theorem AlikeAfter.of_eq {r r' : RunState × LineOutput} (h : r.1.Alike r'.1) (hr : r.2 = r'.2) :
    AlikeAfter line r r' :=
  ⟨h, fun hne => absurd hr hne⟩

theorem alike_declareForm (h : s.Alike s') :
    AlikeAfter line (s.declareForm place before found) (s'.declareForm place before found) := by
  rw [declareForm, declareForm, ← h.forms]
  split
  · exact .of_eq (h.report _) rfl
  · exact .of_eq ⟨rfl, h.exports, h.diagnostics, h.buffers⟩ rfl
  · exact .of_eq h rfl

/-- Whatever is answered, the states stay alike. -/
theorem alike_importContent (h : s.Alike s')
    (hline : Directive.classify line = some (.importing, before, found)) :
    AlikeAfter line (s.importContent answer place before found)
      (s'.importContent answer' place before found) := by
  rw [importContent, importContent, ← h.forms]
  split
  · exact .of_eq (h.report _) rfl
  · next hcheck =>
    obtain ⟨split, hsplit, harity, _⟩ := Invocation.check_eq_ok_iff.1 hcheck
    -- What is left of the line may differ from here on; the states may not.
    refine ⟨?_, fun _ => ⟨before, found, split, hline, hsplit, harity⟩⟩
    split
    · split
      · exact ⟨rfl, h.exports, h.diagnostics, h.buffers⟩
      · exact ⟨h.forms, h.exports, h.diagnostics.trans (others_report_unresolvedWarning ..).symm,
          h.buffers⟩
    · split
      · exact ⟨rfl, h.exports, (others_report_unresolvedWarning ..).trans h.diagnostics,
          h.buffers⟩
      · refine ⟨h.forms, h.exports, ?_, h.buffers⟩
        rw [others_report_unresolvedWarning, others_report_unresolvedWarning, h.diagnostics]
  · exact .of_eq h rfl

theorem agree_recordExport (h : s.Alike s') :
    Agree (AlikeAfter line) (s.recordExport place before found)
      (s'.recordExport place before found) := by
  rw [recordExport, recordExport, ← h.forms, ← h.exports]
  split
  · exact .ok (.of_eq (h.report _) rfl)
  · split
    · exact .ok (.of_eq ⟨rfl, rfl, h.diagnostics, h.buffers⟩ rfl)
    · exact .error _
  · exact .ok (.of_eq h rfl)

theorem alike_recordProperties (h : s.Alike s') :
    AlikeAfter line (s.recordProperties place line) (s'.recordProperties place line) := by
  rw [recordProperties, recordProperties, ← h.forms, ← h.exports]
  split
  · exact .of_eq (h.report _) rfl
  · exact .of_eq ⟨rfl, rfl, h.diagnostics, h.buffers⟩ rfl

/-- A line does the same to two states that are alike, or fails in both. -/
theorem agree_handle (h : s.Alike s') (place : Place) (line : List Char) :
    Agree (AlikeAfter line) (s.handle answer place line) (s'.handle answer' place line) := by
  rw [handle, handle]
  split
  · exact .ok (.of_eq h rfl)
  · exact .ok (alike_declareForm h)
  · next hline => exact .ok (alike_importContent h hline)
  · exact agree_recordExport h
  · exact .ok (alike_recordProperties h)

/-! ## Papers -/

theorem agree_scanLine (h : s.Alike s') (hb : b.Alike b') (number : Nat) (line : List Char) :
    Agree (fun r r' => r.1.Alike r'.1 ∧ r.2.Alike r'.2) (s.scanLine ask b number line)
      (s'.scanLine ask' b' number line) := by
  rw [scanLine_eq, scanLine_eq, ← hb.source]
  refine (agree_handle h _ line).map fun r r' hr => ⟨hr.state, hb.source, ?_⟩
  -- The body starts in a line as it is read, whatever is left of the line.
  cases hstart : startsBody line with
  | false => simp [Buffer.add, hstart, hb.body]
  | true => simp [Buffer.add, hstart]

theorem agree_scanLines (h : s.Alike s') (hb : b.Alike b') (number : Nat)
    (lines : List (List Char)) :
    Agree (fun r r' => r.1.Alike r'.1 ∧ r.2.Alike r'.2) (s.scanLines ask b number lines)
      (s'.scanLines ask' b' number lines) := by
  induction lines generalizing s s' b b' number with
  | nil => exact .ok ⟨h, hb⟩
  | cons line rest ih =>
    rw [scanLines, scanLines]
    exact (agree_scanLine h hb number line).bind fun r r' hr => ih hr.1 hr.2 _

theorem agree_scan (h : s.Alike s') (source : Source) (text : String) :
    Agree Alike (s.scan ask source text) (s'.scan ask' source text) := by
  rw [scan, scan]
  refine (agree_scanLines h ⟨rfl, rfl⟩ 1 _).bind fun r r' hr => .ok ?_
  exact ⟨hr.1.forms, hr.1.exports, hr.1.diagnostics,
    List.rel_append hr.1.buffers (.cons hr.2 .nil)⟩

/-- Two runs that start alike fail in the same way, or end alike. -/
theorem agree_scanAll (h : s.Alike s') (papers : List (Source × String)) :
    Agree Alike (s.scanAll ask papers) (s'.scanAll ask' papers) := by
  induction papers generalizing s s' with
  | nil => exact .ok h
  | cons paper rest ih =>
    rw [scanAll, scanAll]
    exact (agree_scan h _ _).bind fun _ _ => ih

end RunState

/-! ## The root -/

theorem finRange_cast {m n : Nat} (h : m = n) :
    List.finRange n = (List.finRange m).map (Fin.cast h) := by
  subst h
  simp

theorem Root.candidates_eq {buffers buffers' : List Buffer}
    (h : List.Forall₂ Buffer.Alike buffers buffers') :
    candidates buffers' = (candidates buffers).map (Fin.cast h.length_eq) := by
  rw [candidates, finRange_cast h.length_eq, List.filter_map, candidates]
  congr 1
  refine List.filter_congr fun n _ => ?_
  exact ((List.forall₂_iff_get.1 h).2 n n.2 (h.length_eq ▸ n.2)).body.symm

theorem Root.agree_select {buffers buffers' : List Buffer}
    (h : List.Forall₂ Buffer.Alike buffers buffers') :
    Agree (fun n n' => (buffers.get n).source.path = (buffers'.get n').source.path)
      (select buffers) (select buffers') := by
  have hpath (n : Fin buffers.length) :
      buffers[n].source.path = buffers'[Fin.cast h.length_eq n].source.path :=
    congrArg _ ((List.forall₂_iff_get.1 h).2 n n.2 (h.length_eq ▸ n.2)).source
  rw [select, select, candidates_eq h]
  rcases candidates buffers with _ | ⟨n, _ | ⟨m, others⟩⟩
  · exact .error _
  · exact .ok (hpath n)
  · -- The failure names the paths of all candidates.
    simp only [List.map_cons, List.map_map, Function.comp_def, ← hpath]
    exact .error _

/-! ## Runs -/

/-- The readings are of one line, in states that are alike, and come to the same
    unless the line imports something. -/
structure Reading.Alike (r r' : Reading) : Prop where
  /-- The line is the same. -/
  line : r.line = r'.line
  /-- The earlier lines have left states that are alike. -/
  before : r.before.Alike r'.before
  /-- What becomes of the line is the same unless it imports something. -/
  output : r.output ≠ r'.output → ImportsContent r.line.text

theorem RunState.Handles.alike {ask ask' : Resolver} {s s' e e' : RunState}
    {readings readings' : List Reading} (h : Handles ask s readings e)
    (h' : Handles ask' s' readings' e') (hlines : readings.map (·.line) = readings'.map (·.line))
    (hs : s.Alike s') : List.Forall₂ Reading.Alike readings readings' := by
  induction readings generalizing s s' readings' with
  | nil =>
    obtain rfl : readings' = [] := by simpa using hlines.symm
    exact .nil
  | cons r readings ih =>
    cases readings' with
    | nil => simp at hlines
    | cons r' readings' =>
      obtain ⟨hline, hlines⟩ : r.line = r'.line ∧ _ := List.cons.inj hlines
      obtain ⟨rfl, hhandle, hrest⟩ := h
      obtain ⟨rfl, hhandle', hrest'⟩ := h'
      have hstep : Agree (AlikeAfter r.line.text)
          (r.before.handle (ask r.line.moment) r.line.place r.line.text)
          (r'.before.handle (ask' r'.line.moment) r.line.place r.line.text) :=
        agree_handle hs _ _
      rw [hhandle, hline, hhandle'] at hstep
      -- Neither run fails in the line, as both go on.
      cases hstep with
      | ok hafter =>
        exact .cons ⟨hline, hs, fun hne => hline ▸ hafter.output hne⟩
          (ih hrest hrest' hlines hafter.state)

/-- What the drafts for some papers have in common, whatever was answered. -/
structure Draft.Alike (papers : List (Source × String)) (ask ask' : Resolver)
    (draft draft' : Draft) : Prop where
  /-- The root is the same. -/
  root : draft.root = draft'.root
  /-- The exports are the same. -/
  exports : draft.exports = draft'.exports
  /-- The diagnostics are the same, but for those on imports that got nothing. -/
  diagnostics : draft.diagnostics.others = draft'.diagnostics.others
  /-- The lines of the papers come to the same in both, unless they import
      something. -/
  readings : ∃ readings readings', draft.Transcribes ask papers readings ∧
    draft'.Transcribes ask' papers readings' ∧
    List.Forall₂ Reading.Alike readings.flatten readings'.flatten

theorem RunState.agree_draft {s s' : RunState} (h : s.Alike s') :
    Agree (fun d d' : Draft => d.root = d'.root ∧ d.exports = d'.exports ∧
      d.diagnostics.others = d'.diagnostics.others) s.draft s'.draft := by
  rw [draft, draft]
  exact (Root.agree_select h.buffers).bind fun n n' hn => .ok ⟨hn, h.exports, h.diagnostics⟩

theorem Draft.agree_ofTexts (ask ask' : Resolver) (papers : List (Source × String)) :
    Agree (Alike papers ask ask') (ofTexts ask papers) (ofTexts ask' papers) := by
  have hstart : RunState.Alike {} {} := ⟨rfl, rfl, rfl, .nil⟩
  have hscan : Agree RunState.Alike (RunState.scanAll ask {} papers)
      (RunState.scanAll ask' {} papers) := RunState.agree_scanAll hstart papers
  refine (hscan.bind fun _ _ => RunState.agree_draft).imp
    fun draft draft' hdraft hdraft' hsame => ?_
  obtain ⟨hroot, hexports, hdiagnostics⟩ := hsame
  obtain ⟨readings, htranscribes⟩ := exists_transcript hdraft
  obtain ⟨readings', htranscribes'⟩ := exists_transcript hdraft'
  obtain ⟨e, hchain⟩ := htranscribes.chain
  obtain ⟨e', hchain'⟩ := htranscribes'.chain
  -- Both drafts come from all lines of the papers.
  have hlines : readings.flatten.map (·.line) = readings'.flatten.map (·.line) := by
    rw [List.map_flatten, htranscribes.lines, List.map_flatten, htranscribes'.lines]
  exact ⟨hroot, hexports, hdiagnostics, readings, readings', htranscribes, htranscribes',
    hchain.alike hchain' hlines hstart⟩

/-- What the reports on some papers have in common, whatever was answered. -/
structure Report.Alike (papers : List (Source × String)) (ask ask' : Resolver)
    (r r' : Report) : Prop where
  /-- The drafts are alike. -/
  draft : r.draft.Alike papers ask ask' r'.draft
  /-- Which of the exports can be published is the same. -/
  validation : r.validation = r'.validation
  /-- The diagnostics are the same, but for those on imports that got nothing. -/
  diagnostics : r.diagnostics.others = r'.diagnostics.others

theorem Draft.Alike.dryReport {papers : List (Source × String)} {ask ask' : Resolver}
    {draft draft' : Draft} (h : draft.Alike papers ask ask' draft') :
    draft.dryReport.Alike papers ask ask' draft'.dryReport where
  draft := h
  validation := congrArg Exports.validate h.exports
  diagnostics := by
    simp only [Draft.dryReport, Diagnostics.others_append, h.diagnostics, h.exports]

namespace Run

/-- A dry run makes its draft, validates the exports, and does nothing else. -/
theorem on_ofTexts_dry (ask : Resolver) (options : RunOptions) (id : String)
    (papers : List (Source × String)) (t : Tree) :
    ((ofTexts ask { options with dry := true } id papers).on t).1 =
      (Draft.ofTexts ask papers).map Draft.dryReport := by
  rw [on_ofTexts]
  cases Draft.ofTexts ask papers with
  | error f => rfl
  | ok draft => rfl

theorem agree_ofTexts_dry (ask ask' : Resolver) (options : RunOptions) (id : String) (t : Tree)
    (papers : List (Source × String)) :
    Agree (Report.Alike papers ask ask')
      ((ofTexts ask { options with dry := true } id papers).on t).1
      ((ofTexts ask' { options with dry := true } id papers).on t).1 := by
  rw [on_ofTexts_dry, on_ofTexts_dry]
  exact (Draft.agree_ofTexts ask ask' papers).map fun _ _ h => h.dryReport

/-- Two dry runs over the same papers, the store of which may answer whatever
    and whenever it likes, fail in the same way, or their reports are alike. -/
theorem alike_on (ask ask' : Resolver) (options : RunOptions) (id : String) (t : Tree) :
    (∀ papers, Agree (Report.Alike papers ask ask')
      ((ofTexts ask { options with dry := true } id papers).on t).1
      ((ofTexts ask' { options with dry := true } id papers).on t).1) ∧
    ∀ sources, Agree (fun r r' : Report => ∃ papers : List (Source × String),
        papers.map (·.1) = sources ∧ (∀ paper ∈ papers, t.read paper.1.path = .ok paper.2) ∧
          r.Alike papers ask ask' r')
      ((ofSources ask { options with dry := true } id sources).on t).1
      ((ofSources ask' { options with dry := true } id sources).on t).1 := by
  refine ⟨agree_ofTexts_dry ask ask' options id t, fun sources => ?_⟩
  rw [on_ofSources, on_ofSources]
  split
  · next papers hpapers =>
    have hread : Work.on (sources.mapM readPaper) t = (.ok papers, _) := Prod.ext hpapers rfl
    refine (agree_ofTexts_dry ask ask' options id t papers).imp fun _ _ _ _ h => ?_
    exact ⟨papers, sources_readPapers hread, read_of_readPapers hread, h⟩
  · exact .error _

end Run

end PaperGraph
