import Mathlib.Data.List.Forall2
import PaperGraph.Proofs.Handling
import PaperGraph.Proofs.Scanning

/-!
# Readings

What a run gathers from its papers is the work of one long chain: every line is
handled in the state that all earlier lines have left, those of earlier papers
included. A *reading* is one link of that chain: a line, the states before and
after it, and what becomes of it.

* `Line.ofPapers`: the lines of the papers of a run, numbered;
* `RunState.Handles`: the chain; where it starts from nothing, it is determined
  by the lines (`RunState.exists_handles_of_scanAll`);
* `Buffer.Holds`: the output of a paper is what is left of its lines, and the
  body of the document starts where the output of its last line with the marker
  does;
* `RunState.Handles.mem_imported_iff`: a kind is among those imported if a line
  imports a contribution of it.
-/

namespace PaperGraph

open Text

/-- A line of a paper in a run. -/
structure Line where
  /-- When it is read. -/
  moment : Moment
  /-- Where it stands. -/
  place : Place
  /-- Its text, with the newline. -/
  text : List Char

/-- The lines of a paper from that number on. -/
def Line.number (paper : Nat) (path : Path) (first : Nat) (lines : List (List Char)) : List Line :=
  (lines.zipIdx first).map fun (text, number) =>
    { moment := { paper, line := number }, place := { path, line := number }, text }

theorem Line.texts_number (paper : Nat) (path : Path) (first : Nat) (lines : List (List Char)) :
    (Line.number paper path first lines).map (·.text) = lines := by
  rw [Line.number, List.map_map]
  exact List.zipIdx_map_fst first lines

/-- The lines of the papers of a run, paper by paper. -/
def Line.ofPapers (first : Nat) (papers : List (Source × String)) : List (List Line) :=
  (papers.zipIdx first).map fun ((source, text), paper) =>
    number paper source.path 1 (inclusiveLines text.toList)

/-- A line that was handled. The outputs of papers are left out of the states. -/
structure Reading where
  /-- The line. -/
  line : Line
  /-- The state that the earlier lines have left. -/
  before : RunState
  /-- What becomes of the line. -/
  output : LineOutput
  /-- The state that it leaves. -/
  after : RunState

namespace Reading

/-- What is left of the line in the output. -/
def text (r : Reading) : String :=
  match r.output with
  | .original => String.ofList r.line.text
  | .dropped => ""
  | .replaced text => text

/-- What is left of some lines. -/
def texts (readings : List Reading) : String :=
  String.join (readings.map text)

/-- Whether the body of the document starts in the line. -/
def startsBody (r : Reading) : Bool :=
  PaperGraph.startsBody r.line.text

/-- The line imports a contribution of that kind. -/
def Imports (ask : Resolver) (r : Reading) (kind : Kind) : Prop :=
  ∃ request snippet, request? r.before.forms r.line.place r.line.text = some request ∧
    ask r.line.moment request = .ok { snippet, kind }

/-- The pieces of the output that a line leaves. -/
def pieces (r : Reading) : List String :=
  r.output.lines (String.ofList r.line.text)

theorem join_pieces (r : Reading) : String.join r.pieces = r.text := by
  rw [pieces, text]
  cases r.output with
  | original => simp [LineOutput.lines]
  | dropped => simp [LineOutput.lines]
  | replaced text => simp [LineOutput.lines]

@[simp]
theorem texts_cons (r : Reading) (readings : List Reading) :
    texts (r :: readings) = r.text ++ texts readings := by
  rw [texts, List.map_cons, String.join_cons, texts]

theorem join_flatMap_pieces (readings : List Reading) :
    String.join (readings.flatMap pieces) = texts readings := by
  induction readings with
  | nil => rfl
  | cons r readings ih =>
    rw [List.flatMap_cons, String.join_append, ih, join_pieces, texts_cons]

@[simp]
theorem texts_append (first second : List Reading) :
    texts (first ++ second) = texts first ++ texts second := by
  rw [texts, List.map_append, String.join_append, texts, texts]

end Reading

namespace RunState

variable {ask : Resolver} {s s₁ s' : RunState}

/-! ## States without outputs -/

/-- What a state has gathered, but for the outputs of papers. -/
def gathered (s : RunState) : RunState :=
  { s with buffers := [] }

theorem gathered_handle (answer : Request → Answer) (s : RunState) (place : Place)
    (line : List Char) :
    s.gathered.handle answer place line =
      (s.handle answer place line).map fun r => (r.1.gathered, r.2) :=
  handle_withBuffers answer s [] place line

/-! ## The chain -/

/-- Lines are handled one after the other from the state `s` to the state `s'`,
    each in the state that the one before it has left. -/
def Handles (ask : Resolver) (s : RunState) : List Reading → RunState → Prop
  | [], s' => s' = s
  | r :: readings, s' =>
    r.before = s ∧ s.handle (ask r.line.moment) r.line.place r.line.text = .ok (r.after, r.output) ∧
      Handles ask r.after readings s'

variable {readings further : List Reading}

theorem Handles.append (h : Handles ask s readings s₁) (h' : Handles ask s₁ further s') :
    Handles ask s (readings ++ further) s' := by
  induction readings generalizing s with
  | nil =>
    obtain rfl : s₁ = s := h
    exact h'
  | cons r readings ih =>
    obtain ⟨hbefore, hhandle, hrest⟩ := h
    exact ⟨hbefore, hhandle, ih hrest⟩

theorem Handles.handle_of_mem (h : Handles ask s readings s') {r : Reading} (hr : r ∈ readings) :
    r.before.handle (ask r.line.moment) r.line.place r.line.text = .ok (r.after, r.output) := by
  induction readings generalizing s with
  | nil => exact absurd hr List.not_mem_nil
  | cons q readings ih =>
    obtain ⟨rfl, hhandle, hrest⟩ := h
    rcases List.mem_cons.1 hr with rfl | hr
    · exact hhandle
    · exact ih hrest hr

/-- What every line keeps, the chain keeps: it holds of all states on the way. -/
theorem Handles.invariant {P : RunState → Prop} (h : Handles ask s readings s') (hs : P s)
    (hstep : ∀ r ∈ readings, r.before.handle (ask r.line.moment) r.line.place r.line.text =
      .ok (r.after, r.output) → P r.before → P r.after) :
    P s' ∧ ∀ r ∈ readings, P r.before := by
  induction readings generalizing s with
  | nil =>
    obtain rfl : s' = s := h
    exact ⟨hs, fun _ hr => absurd hr List.not_mem_nil⟩
  | cons r readings ih =>
    obtain ⟨rfl, hhandle, hrest⟩ := h
    have hafter := hstep r List.mem_cons_self hhandle hs
    obtain ⟨hend, hway⟩ := ih hrest hafter fun q hq => hstep q (List.mem_cons_of_mem _ hq)
    refine ⟨hend, fun q hq => ?_⟩
    rcases List.mem_cons.1 hq with rfl | hq
    · exact hs
    · exact hway q hq

end RunState

/-! ## Outputs -/

/-- What a buffer `b` has become when the lines of some readings were added to
    it. -/
structure Buffer.Grows (b : Buffer) (readings : List Reading) (b' : Buffer) : Prop where
  /-- It belongs to the same paper. -/
  source : b'.source = b.source
  /-- The pieces that the lines leave were put at its end. -/
  lines : b'.lines = b.lines ++ readings.flatMap Reading.pieces
  /-- The body starts where it did if it starts in none of the lines. -/
  unmarked : (∀ r ∈ readings, ¬ r.startsBody) → b'.bodyStart? = b.bodyStart?
  /-- Otherwise it starts where the output of the last one of them does. -/
  marked : ∀ before r after, readings = before ++ r :: after → r.startsBody →
    (∀ q ∈ after, ¬ q.startsBody) →
      b'.bodyStart? = some (b.lines ++ before.flatMap Reading.pieces).length

theorem Buffer.Grows.nil {b : Buffer} : b.Grows [] b where
  source := rfl
  lines := (List.append_nil _).symm
  unmarked _ := rfl
  marked before r after h := by simp at h

/-- A line is added before the others. -/
theorem Buffer.Grows.cons {b b' : Buffer} {r : Reading} {readings : List Reading}
    (h : (b.add r.line.text r.output).Grows readings b') : b.Grows (r :: readings) b' := by
  have hlines : (b.add r.line.text r.output).lines = b.lines ++ r.pieces := rfl
  have hbody : (b.add r.line.text r.output).bodyStart? =
      if r.startsBody then some b.lines.length else b.bodyStart? := rfl
  refine ⟨h.source, ?_, fun hnone => ?_, fun before q after he hq hafter => ?_⟩
  · rw [h.lines, hlines, List.flatMap_cons, List.append_assoc]
  · rw [List.forall_mem_cons] at hnone
    rw [h.unmarked hnone.2, hbody, if_neg hnone.1]
  · cases before with
    | nil =>
      obtain ⟨rfl, rfl⟩ : r = q ∧ readings = after := by simpa using he
      rw [h.unmarked hafter, hbody, if_pos hq, List.flatMap_nil, List.append_nil]
    | cons p before =>
      obtain ⟨rfl, rfl⟩ : r = p ∧ readings = before ++ q :: after := by simpa using he
      rw [h.marked before q after rfl hq hafter, hlines, List.flatMap_cons, List.append_assoc]

/-- A buffer holds what is left of the lines of some readings, and nothing else. -/
def Buffer.Holds (b : Buffer) (readings : List Reading) : Prop :=
  Buffer.Grows { source := b.source } readings b

namespace RunState

variable {ask : Resolver} {s s' : RunState} {b b' : Buffer}

theorem exists_handles_of_scanLines {number : Nat} {lines : List (List Char)}
    (h : s.scanLines ask b number lines = .ok (s', b')) :
    ∃ readings, readings.map (·.line) =
        Line.number s.buffers.length b.source.path number lines ∧
      Handles ask s.gathered readings s'.gathered ∧ b.Grows readings b' := by
  induction lines generalizing s b number with
  | nil =>
    obtain ⟨rfl, rfl⟩ := Prod.mk.inj (Except.ok.inj h)
    exact ⟨[], rfl, rfl, .nil⟩
  | cons line rest ih =>
    obtain ⟨⟨s₁, b₁⟩, hline, h⟩ := bind_eq_ok_iff.1 h
    rw [scanLine_eq] at hline
    obtain ⟨⟨s₂, output⟩, hhandle, hline⟩ := map_eq_ok_iff.1 hline
    obtain ⟨rfl, rfl⟩ := Prod.mk.inj hline
    let r : Reading :=
      { line := { moment := { paper := s.buffers.length, line := number }
                  place := { path := b.source.path, line := number }, text := line }
        before := s.gathered
        output
        after := s₂.gathered }
    obtain ⟨readings, hlines, hchain, hgrows⟩ := ih h
    rw [buffers_handle hhandle] at hlines
    refine ⟨r :: readings, ?_, ⟨rfl, ?_, hchain⟩, .cons hgrows⟩
    · rw [List.map_cons, hlines, Line.number, Line.number, List.zipIdx_cons, List.map_cons]
      rfl
    · rw [gathered_handle, hhandle]
      rfl

theorem exists_handles_of_scan {source : Source} {text : String}
    (h : s.scan ask source text = .ok s') :
    ∃ readings b, readings.map (·.line) =
        Line.number s.buffers.length source.path 1 (inclusiveLines text.toList) ∧
      Handles ask s.gathered readings s'.gathered ∧ s'.buffers = s.buffers ++ [b] ∧
      b.source = source ∧ b.Holds readings := by
  obtain ⟨⟨s₁, b⟩, hlines, h⟩ := bind_eq_ok_iff.1 h
  obtain rfl := Except.ok.inj h
  obtain ⟨hbuffers, hsource⟩ := buffers_scanLines hlines
  obtain ⟨readings, hread, hchain, hgrows⟩ := exists_handles_of_scanLines hlines
  refine ⟨readings, b, hread, hchain, by rw [hbuffers], hsource, ?_⟩
  rw [Buffer.Holds, hsource]
  exact hgrows

/-- The lines of all papers are handled in one chain, and every paper leaves a
    buffer that holds what is left of its lines. -/
theorem exists_handles_of_scanAll {papers : List (Source × String)}
    (h : s.scanAll ask papers = .ok s') :
    ∃ readings : List (List Reading), ∃ buffers,
      readings.map (·.map (·.line)) = Line.ofPapers s.buffers.length papers ∧
      Handles ask s.gathered readings.flatten s'.gathered ∧ s'.buffers = s.buffers ++ buffers ∧
      List.Forall₂ Buffer.Holds buffers readings := by
  induction papers generalizing s with
  | nil =>
    obtain rfl := Except.ok.inj h
    exact ⟨[], [], rfl, rfl, (List.append_nil _).symm, .nil⟩
  | cons paper rest ih =>
    obtain ⟨s₁, hscan, h⟩ := bind_eq_ok_iff.1 h
    obtain ⟨first, b, hlines, hchain, hbuffer, _, hholds⟩ := exists_handles_of_scan hscan
    obtain ⟨readings, buffers, hlines', hchain', hbuffers, hholds'⟩ := ih h
    refine ⟨first :: readings, b :: buffers, ?_, hchain.append hchain', ?_, .cons hholds hholds'⟩
    · rw [List.map_cons, hlines, hlines', hbuffer, List.length_append, List.length_singleton]
      rfl
    · rw [hbuffers, hbuffer, List.append_assoc, List.singleton_append]

/-! ## Imports -/

/-- The kinds that are imported are those of the contributions that some line
    imports. -/
theorem Handles.mem_imported_iff {readings : List Reading} (h : Handles ask s readings s')
    (k : Kind) : k ∈ s'.imported ↔ k ∈ s.imported ∨ ∃ r ∈ readings, r.Imports ask k := by
  induction readings generalizing s with
  | nil =>
    obtain rfl : s' = s := h
    simp
  | cons r readings ih =>
    obtain ⟨rfl, hhandle, hrest⟩ := h
    rw [ih hrest, (handled_of_handle hhandle).mem_imported_iff k, List.exists_mem_cons_iff,
      or_assoc, Reading.Imports]

end RunState

end PaperGraph
