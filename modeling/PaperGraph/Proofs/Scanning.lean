import PaperGraph.Proofs.Steps
import PaperGraph.Run.Draft

/-!
# Scanning

Whatever the directives of a paper do, every paper leaves one buffer, at its
end, so that the outputs of a draft are those of the papers, in their order.

* `RunState.handle_withBuffers`, `RunState.buffers_handle`: no directive looks at
  the buffers, or touches them;
* `Draft.sources_ofTexts`: the outputs belong to the papers.
-/

namespace PaperGraph

/-- The buffer with what is left of a line put at its end. -/
def Buffer.add (b : Buffer) (line : List Char) (output : LineOutput) : Buffer :=
  { b with
    bodyStart? := if startsBody line then some b.lines.length else b.bodyStart?
    lines := b.lines ++ output.lines (String.ofList line) }

namespace RunState

variable {ask : Resolver} {s s' : RunState} {b b' : Buffer}

/-- The state with other buffers. -/
def withBuffers (s : RunState) (buffers : List Buffer) : RunState :=
  { s with buffers }

theorem declareForm_withBuffers (s : RunState) (buffers : List Buffer) (place : Place)
    (before found : List Char) :
    (s.withBuffers buffers).declareForm place before found =
      ((s.declareForm place before found).1.withBuffers buffers,
        (s.declareForm place before found).2) := by
  rw [declareForm, declareForm]
  simp only [withBuffers]
  split
  · rfl
  · rfl
  · rfl

theorem importContent_withBuffers (answer : Request → Answer) (s : RunState)
    (buffers : List Buffer) (place : Place) (before found : List Char) :
    (s.withBuffers buffers).importContent answer place before found =
      ((s.importContent answer place before found).1.withBuffers buffers,
        (s.importContent answer place before found).2) := by
  rw [importContent, importContent]
  simp only [withBuffers]
  split
  · rfl
  · split
    · rfl
    · rfl
  · rfl

theorem recordExport_withBuffers (s : RunState) (buffers : List Buffer) (place : Place)
    (before found : List Char) :
    (s.withBuffers buffers).recordExport place before found =
      (s.recordExport place before found).map fun r => (r.1.withBuffers buffers, r.2) := by
  rw [recordExport, recordExport]
  simp only [withBuffers]
  split
  · rfl
  · split
    · rfl
    · rfl
  · rfl

theorem recordProperties_withBuffers (s : RunState) (buffers : List Buffer) (place : Place)
    (line : List Char) :
    (s.withBuffers buffers).recordProperties place line =
      ((s.recordProperties place line).1.withBuffers buffers,
        (s.recordProperties place line).2) := by
  rw [recordProperties, recordProperties]
  simp only [withBuffers]
  split
  · rfl
  · rfl

/-- No directive looks at the buffers. -/
theorem handle_withBuffers (answer : Request → Answer) (s : RunState) (buffers : List Buffer)
    (place : Place) (line : List Char) :
    (s.withBuffers buffers).handle answer place line =
      (s.handle answer place line).map fun r => (r.1.withBuffers buffers, r.2) := by
  rw [handle, handle]
  split
  · rfl
  · rw [declareForm_withBuffers]
    rfl
  · rw [importContent_withBuffers]
    rfl
  · exact recordExport_withBuffers ..
  · rw [recordProperties_withBuffers]
    rfl

/-- No directive touches the buffers. -/
theorem buffers_handle {answer : Request → Answer} {place : Place} {line : List Char}
    {output : LineOutput} (h : s.handle answer place line = .ok (s', output)) :
    s'.buffers = s.buffers := by
  have hsame : s.handle answer place line =
      (s.handle answer place line).map fun r => (r.1.withBuffers s.buffers, r.2) :=
    handle_withBuffers answer s s.buffers place line
  rw [h] at hsame
  have hs' : s' = s'.withBuffers s.buffers := (Prod.mk.inj (Except.ok.inj hsame)).1
  rw [hs']
  rfl

/-- A line is handled, and what is left of it goes into the buffer. -/
theorem scanLine_eq (ask : Resolver) (s : RunState) (b : Buffer) (number : Nat)
    (line : List Char) : s.scanLine ask b number line =
      (s.handle (ask { paper := s.buffers.length, line := number })
        { path := b.source.path, line := number } line).map fun r => (r.1, b.add line r.2) := by
  simp only [scanLine, Buffer.add]
  split
  · cases s.handle (ask { paper := s.buffers.length, line := number })
      { path := b.source.path, line := number } line with
    | error f => rfl
    | ok r => rfl
  · cases s.handle (ask { paper := s.buffers.length, line := number })
      { path := b.source.path, line := number } line with
    | error f => rfl
    | ok r => rfl

theorem buffers_scanLine {number : Nat} {line : List Char}
    (h : s.scanLine ask b number line = .ok (s', b')) :
    s'.buffers = s.buffers ∧ b'.source = b.source := by
  rw [scanLine_eq] at h
  obtain ⟨⟨s₁, output⟩, hhandle, h⟩ := map_eq_ok_iff.1 h
  obtain ⟨rfl, rfl⟩ := Prod.mk.inj h
  exact ⟨buffers_handle hhandle, rfl⟩

theorem buffers_scanLines {number : Nat} {lines : List (List Char)}
    (h : s.scanLines ask b number lines = .ok (s', b')) :
    s'.buffers = s.buffers ∧ b'.source = b.source := by
  induction lines generalizing s b number with
  | nil =>
    obtain ⟨rfl, rfl⟩ := Prod.mk.inj (Except.ok.inj h)
    exact ⟨rfl, rfl⟩
  | cons line rest ih =>
    obtain ⟨⟨s₁, b₁⟩, hline, h⟩ := bind_eq_ok_iff.1 h
    obtain ⟨hbuffers, hsource⟩ := buffers_scanLine hline
    obtain ⟨hbuffers', hsource'⟩ := ih h
    exact ⟨hbuffers'.trans hbuffers, hsource'.trans hsource⟩

/-- Lines are handled in the state that those before them have left. -/
theorem scanLines_append (ask : Resolver) (s : RunState) (b : Buffer) (number : Nat)
    (front back : List (List Char)) : s.scanLines ask b number (front ++ back) =
      s.scanLines ask b number front >>= fun r =>
        r.1.scanLines ask r.2 (number + front.length) back := by
  induction front generalizing s b number with
  | nil => rfl
  | cons line front ih =>
    rw [List.cons_append, scanLines, scanLines, bind_assoc]
    refine congrArg _ (funext fun r => ?_)
    obtain ⟨s, b⟩ := r
    dsimp only
    rw [ih, List.length_cons, Nat.add_comm front.length 1, Nat.add_assoc]

theorem scanAll_singleton (ask : Resolver) (s : RunState) (source : Source) (text : String) :
    s.scanAll ask [(source, text)] = s.scan ask source text := by
  rw [scanAll]
  exact bind_pure _

/-- Every paper leaves one buffer, at the end. -/
theorem sources_scanAll {papers : List (Source × String)}
    (h : s.scanAll ask papers = .ok s') :
    s'.buffers.map (·.source) = s.buffers.map (·.source) ++ papers.map (·.1) := by
  induction papers generalizing s with
  | nil =>
    obtain rfl := Except.ok.inj h
    rw [List.map_nil, List.append_nil]
  | cons paper rest ih =>
    obtain ⟨s₁, hscan, h⟩ := bind_eq_ok_iff.1 h
    obtain ⟨⟨s₂, b⟩, hlines, hscan⟩ := bind_eq_ok_iff.1 hscan
    obtain rfl := Except.ok.inj hscan
    obtain ⟨hbuffers, hsource⟩ := buffers_scanLines hlines
    rw [ih h, List.map_append, hbuffers, List.map_singleton, hsource, List.append_assoc,
      List.map_cons, List.singleton_append]

end RunState

@[simp]
theorem Buffer.source_insertEnvironments (b : Buffer) (environments : List String) :
    (b.insertEnvironments environments).source = b.source := by
  rw [insertEnvironments]
  split
  · rfl
  · rfl

theorem RunState.sources_draft {s : RunState} {draft : Draft} (h : s.draft = .ok draft) :
    draft.outputs.map (·.source) = s.buffers.map (·.source) := by
  obtain ⟨root, _, h⟩ := bind_eq_ok_iff.1 h
  obtain rfl := Except.ok.inj h
  refine List.ext_getElem? fun i => ?_
  simp only [List.map_map, List.getElem?_map, List.getElem?_modify]
  rw [Option.map_eq_map, Option.map_map]
  refine congrArg (Option.map · _) (funext fun b => ?_)
  by_cases hi : (root : Nat) = i
  · simp [hi]
  · simp [hi]

/-- The outputs of a draft belong to the papers, in their order. -/
theorem Draft.sources_ofTexts {ask : Resolver} {papers : List (Source × String)} {draft : Draft}
    (h : Draft.ofTexts ask papers = .ok draft) :
    draft.outputs.map (·.source) = papers.map (·.1) := by
  obtain ⟨s, hscan, hdraft⟩ := bind_eq_ok_iff.1 h
  rw [RunState.sources_draft hdraft, RunState.sources_scanAll hscan]
  rfl

end PaperGraph
