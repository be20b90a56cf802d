import PaperGraph.Proofs.BodyStart

/-!
# Boundaries between papers

A line is handled in the state that all earlier lines have left, whatever paper
these stood in. The paper and the number of the line show in the places of
diagnostics, in the failure that the line ends the run with, and nowhere else. So a
paper can be cut into two at the end of a line.

* `RunState.Matches`: states are the same but for places and outputs;
* `RunState.agree_handle_place`: a line does the same to such states, wherever it
  stands;
* `Buffer.Extends`: a buffer goes on where another one starts anew;
* `RunState.agree_scanLines_place`: some lines of a paper, and the same lines of
  another one;
* `RunState.agree_scan_append`: a paper, and two papers into which it was cut.
-/

namespace PaperGraph

open Text

/-! ## Places -/

/-- The diagnostic, about another place. -/
def Diagnostic.moved (place : Place) (d : Diagnostic) : Diagnostic :=
  { d with place := some place }

/-- The place of an invocation shows in its number and in what is wrong with it. -/
theorem Invocation.check_moved (d : Directive) (forms : Dictionary) (place place' : Place)
    (offset : Nat) (text : List Char) : check d forms place' offset text =
      match check d forms place offset text with
      | .ok i => .ok { i with line := place'.line }
      | .error e => .error (e.moved place') := by
  rw [check, check, read, read]
  cases Groups.split text with
  | error u => rfl
  | ok split =>
    -- Both have the arguments of the groups, and so the same number of them.
    have harity : (ofSplit d forms place'.line offset split).hasArity =
        (ofSplit d forms place.line offset split).hasArity := rfl
    dsimp only
    rw [harity]
    split
    · rfl
    · rfl

namespace Property

theorem ofInvocation_moved (forms : Dictionary) (place place' : Place) (offset : Nat)
    (split : Groups.Split) :
    ofInvocation (.ofSplit .property forms place'.line offset split) place' =
      (ofInvocation (.ofSplit .property forms place.line offset split) place).mapError
        (·.moved place') := by
  rw [ofInvocation, ofInvocation]
  simp only [Invocation.arguments_ofSplit]
  split
  · split
    · rfl
    · rfl
  · rfl

/-- The place of a line shows in what is wrong with its properties only. -/
theorem rewrite_moved (forms : Dictionary) (place place' : Place) (offset : Nat)
    (text : List Char) : rewrite forms place' offset text =
      (rewrite forms place offset text).mapError (·.moved place') := by
  rw [rewrite, rewrite]
  split
  · rfl
  · next before found hfound =>
    dsimp only
    split
    · rfl
    · next split hsplit =>
      have hlength : split.rest.length < text.length := by
        have hfound := length_of_occurrence? hfound
        have hrest := Groups.length_rest_lt hsplit hfound.2
        omega
      rw [ofInvocation_moved forms place place', rewrite_moved forms place place']
      cases ofInvocation _ place with
      | error d => rfl
      | ok p =>
        dsimp only [Except.mapError]
        cases rewrite forms place _ _ with
        | error d => rfl
        | ok r => rfl
termination_by text.length

end Property

/-! ## Lines -/

/-- The diagnostics are the same but for their places. -/
def Diagnostic.Matches (d d' : Diagnostic) : Prop :=
  ∃ place, d' = { d with place }

/-- Both failures are about a malformed item, and about the same one. -/
inductive Failure.Matches : Failure → Failure → Prop where
  /-- The item stands in some place in both. -/
  | malformedPair (path path' : Path) (line line' : Nat) (item : String) :
    Matches (.malformedPair path line item) (.malformedPair path' line' item)

namespace RunState

/-- The states are the same but for the places in diagnostics and the outputs of
    papers. -/
structure Matches (s s' : RunState) : Prop where
  /-- The short forms are the same. -/
  forms : s.forms = s'.forms
  /-- The exports are the same. -/
  exports : s.exports = s'.exports
  /-- The kinds imported are the same. -/
  imported : s.imported = s'.imported
  /-- The diagnostics are the same, one after the other, but for their places. -/
  diagnostics : List.Forall₂ Diagnostic.Matches s.diagnostics s'.diagnostics

variable {s s' : RunState} {answer : Request → Answer} {place place' : Place}
  {line before found : List Char}

theorem Matches.refl (s : RunState) : s.Matches s :=
  ⟨rfl, rfl, rfl, List.forall₂_same.2 fun d _ => ⟨d.place, rfl⟩⟩

theorem Matches.withBuffers (h : s.Matches s') (buffers : List Buffer) :
    s.Matches (s'.withBuffers buffers) :=
  ⟨h.forms, h.exports, h.imported, h.diagnostics⟩

theorem Matches.report {d d' : Diagnostic} (h : s.Matches s') (hd : d.Matches d') :
    (s.report d).Matches (s'.report d') :=
  ⟨h.forms, h.exports, h.imported, List.rel_append h.diagnostics (.cons hd .nil)⟩

/-- The states match, and the same becomes of the line. -/
structure MatchesAfter (r r' : RunState × LineOutput) : Prop where
  /-- The states match. -/
  state : r.1.Matches r'.1
  /-- The same becomes of the line. -/
  output : r.2 = r'.2

theorem matches_declareForm (h : s.Matches s') :
    MatchesAfter (s.declareForm place before found) (s'.declareForm place' before found) := by
  rw [declareForm, declareForm, ← h.forms, Invocation.check_moved _ _ place place']
  cases Invocation.check .shortForm s.forms place (utf8Size before) found with
  | error d => exact ⟨h.report ⟨_, rfl⟩, rfl⟩
  | ok i =>
    obtain ⟨_, arguments, _, _⟩ := i
    rcases arguments with _ | ⟨token, _ | ⟨expansion, _ | ⟨_, _⟩⟩⟩
    · exact ⟨h, rfl⟩
    · exact ⟨h, rfl⟩
    · exact ⟨⟨rfl, h.exports, h.imported, h.diagnostics⟩, rfl⟩
    · exact ⟨h, rfl⟩

theorem matches_importContent (h : s.Matches s') :
    MatchesAfter (s.importContent answer place before found)
      (s'.importContent answer place' before found) := by
  rw [importContent, importContent, ← h.forms, ← h.imported,
    Invocation.check_moved _ _ place place']
  cases Invocation.check .importing s.forms place (utf8Size before) found with
  | error d => exact ⟨h.report ⟨_, rfl⟩, rfl⟩
  | ok i =>
    obtain ⟨_, arguments, _, _⟩ := i
    rcases arguments with _ | ⟨label, _ | ⟨key, _ | ⟨iri, _ | ⟨store, _ | ⟨_, _⟩⟩⟩⟩⟩
    · exact ⟨h, rfl⟩
    · exact ⟨h, rfl⟩
    · exact ⟨h, rfl⟩
    · exact ⟨h, rfl⟩
    · dsimp only
      cases answer { iri, label, key, store } with
      | ok resolution => exact ⟨⟨rfl, h.exports, rfl, h.diagnostics⟩, rfl⟩
      | error fault => exact ⟨h.report ⟨_, rfl⟩, rfl⟩
    · exact ⟨h, rfl⟩

theorem agree_recordExport_place (h : s.Matches s') :
    AgreeUpTo Failure.Matches MatchesAfter (s.recordExport place before found)
      (s'.recordExport place' before found) := by
  rw [recordExport, recordExport, ← h.forms, ← h.exports,
    Invocation.check_moved _ _ place place']
  cases Invocation.check .exporting s.forms place (utf8Size before) found with
  | error d => exact .ok ⟨h.report ⟨_, rfl⟩, rfl⟩
  | ok i =>
    obtain ⟨_, arguments, _, _⟩ := i
    rcases arguments with _ | ⟨name, _ | ⟨kind, _ | ⟨list, _ | ⟨_, _⟩⟩⟩⟩
    · exact .ok ⟨h, rfl⟩
    · exact .ok ⟨h, rfl⟩
    · exact .ok ⟨h, rfl⟩
    · dsimp only
      cases Pairs.parse list.toList with
      | ok pairs => exact .ok ⟨⟨rfl, rfl, h.imported, h.diagnostics⟩, rfl⟩
      | error item => exact .error (.malformedPair ..)
    · exact .ok ⟨h, rfl⟩

theorem matches_recordProperties (h : s.Matches s') :
    MatchesAfter (s.recordProperties place line) (s'.recordProperties place' line) := by
  rw [recordProperties, recordProperties, ← h.forms, ← h.exports,
    Property.rewrite_moved _ place place']
  cases Property.rewrite s.forms place 0 line with
  | error d => exact ⟨h.report ⟨_, rfl⟩, rfl⟩
  | ok r => exact ⟨⟨rfl, rfl, h.imported, h.diagnostics⟩, rfl⟩

/-- A line does the same to two states that match, wherever it stands, or ends the
    run in both. -/
theorem agree_handle_place (h : s.Matches s') (place place' : Place) (line : List Char) :
    AgreeUpTo Failure.Matches MatchesAfter (s.handle answer place line)
      (s'.handle answer place' line) := by
  rw [handle, handle]
  split
  · exact .ok ⟨h, rfl⟩
  · exact .ok (matches_declareForm h)
  · exact .ok (matches_importContent h)
  · exact agree_recordExport_place h
  · exact .ok (matches_recordProperties h)

end RunState

/-! ## Buffers -/

/-- The buffer `b` goes on from `base`, where `b'` starts anew. -/
structure Buffer.Extends (base b b' : Buffer) : Prop where
  /-- It has the pieces of `base`, and then those of `b'`. -/
  lines : b.lines = base.lines ++ b'.lines
  /-- The body starts where it does in `b'`, after the pieces of `base`. If it starts
      nowhere there, it starts where it does in `base`. -/
  bodyStart? : b.bodyStart? = (b'.bodyStart?.map (base.lines.length + ·)).or base.bodyStart?

namespace Buffer

variable {base b b' : Buffer}

theorem Extends.start {source : Source} : base.Extends base { source } :=
  ⟨(List.append_nil _).symm, rfl⟩

theorem Extends.add (h : base.Extends b b') (line : List Char) (output : LineOutput) :
    base.Extends (b.add line output) (b'.add line output) where
  lines := by
    simp only [Buffer.add]
    rw [h.lines, List.append_assoc]
  bodyStart? := by
    simp only [Buffer.add]
    split
    · rw [h.lines, List.length_append, Option.map_some, Option.some_or]
    · exact h.bodyStart?

end Buffer

/-! ## Papers -/

namespace RunState

variable {s s' : RunState} {base b b' : Buffer} {ask ask' : Resolver}

theorem agree_scanLine_place (h : s.Matches s') (hb : base.Extends b b') {number number' : Nat}
    (hask : ask { paper := s.buffers.length, line := number } =
      ask' { paper := s'.buffers.length, line := number' }) (line : List Char) :
    AgreeUpTo Failure.Matches (fun r r' => r.1.Matches r'.1 ∧ base.Extends r.2 r'.2)
      (s.scanLine ask b number line) (s'.scanLine ask' b' number' line) := by
  rw [scanLine_eq, scanLine_eq, ← hask]
  refine (agree_handle_place h _ _ line).map fun r r' hr => ⟨hr.state, ?_⟩
  rw [← hr.output]
  exact hb.add line r.2

/-- Lines do the same in two papers. -/
theorem agree_scanLines_place (h : s.Matches s') (hb : base.Extends b b') (number number' : Nat)
    (lines : List (List Char)) (hask : ∀ i < lines.length,
      ask { paper := s.buffers.length, line := number + i } =
        ask' { paper := s'.buffers.length, line := number' + i }) :
    AgreeUpTo Failure.Matches (fun r r' => r.1.Matches r'.1 ∧ base.Extends r.2 r'.2)
      (s.scanLines ask b number lines) (s'.scanLines ask' b' number' lines) := by
  induction lines generalizing s s' b b' number number' with
  | nil => exact .ok ⟨h, hb⟩
  | cons line rest ih =>
    rw [scanLines, scanLines]
    refine (agree_scanLine_place h hb (hask 0 (Nat.succ_pos _)) line).bind
      fun r r' hline hline' hr => ih hr.1 hr.2 _ _ fun i hi => ?_
    rw [(buffers_scanLine hline).1, (buffers_scanLine hline').1, Nat.add_right_comm,
      Nat.add_right_comm number']
    exact hask (i + 1) (Nat.succ_lt_succ hi)

/-- The body starts in the output of a paper if it starts in one of the lines. -/
theorem isSome_bodyStart?_scanLines {source : Source} {number : Nat} {lines : List (List Char)}
    (h : s.scanLines ask { source } number lines = .ok (s', b)) :
    b.bodyStart?.isSome ↔ ∃ line ∈ lines, startsBody line := by
  obtain ⟨readings, hread, _, hgrows⟩ := exists_handles_of_scanLines h
  have hholds : b.Holds readings := by
    rw [Buffer.Holds, (buffers_scanLines h).2]
    exact hgrows
  have htexts : readings.map (·.line.text) = lines := by
    rw [← Line.texts_number _ _ number lines, ← hread, List.map_map]
    rfl
  rw [hholds.isSome_bodyStart?_iff, ← htexts]
  simp [Reading.startsBody]

end RunState

/-! ## Cuts -/

/-- The store gives the answers of `ask` when the paper of that number is cut into two,
    so many lines after its start. -/
structure Resolver.Cut (ask ask' : Resolver) (paper lines : Nat) : Prop where
  /-- The lines before the cut stay where they are. -/
  before : ∀ line ≤ lines, ask' { paper, line } = ask { paper, line }
  /-- The lines after it are the lines of the next paper. -/
  after : ∀ line > 0, ask' { paper := paper + 1, line } = ask { paper, line := lines + line }

/-- A cut does not matter to a store that always gives the same answers. -/
theorem Resolver.cut_const (answer : Request → Answer) (paper lines : Nat) :
    Resolver.Cut (fun _ => answer) (fun _ => answer) paper lines :=
  ⟨fun _ _ => rfl, fun _ _ => rfl⟩

/-- The buffer of a paper has the pieces of two buffers, those of its parts. The
    other part has the text `rest`. -/
structure Buffer.Joins (b first second : Buffer) (rest : List Char) : Prop where
  /-- The pieces are those of the one and then those of the other. -/
  lines : b.lines = first.lines ++ second.lines
  /-- If the other part has the marker, the body starts where it does there, after the
      pieces of the one. -/
  marked : startsBody rest →
    ∃ n, second.bodyStart? = some n ∧ b.bodyStart? = some (first.lines.length + n)
  /-- Otherwise it starts where it does in the one. -/
  unmarked : ¬ startsBody rest → b.bodyStart? = first.bodyStart?

theorem Buffer.Extends.eq_of_start {source : Source} {b b' : Buffer}
    (h : Buffer.Extends { source } b b') : b.lines = b'.lines ∧ b.bodyStart? = b'.bodyStart? := by
  have hbody := h.bodyStart?
  simp only [List.length_nil, Nat.zero_add, Option.map_id', Option.or_none] at hbody
  exact ⟨h.lines, hbody⟩

theorem Buffer.joins_of_extends {source : Source} {base b b₁ b₂ : Buffer} {rest : List Char}
    (hfirst : Extends { source } base b₁) (hsecond : base.Extends b b₂)
    (hmarker : b₂.bodyStart?.isSome ↔ startsBody rest) : b.Joins b₁ b₂ rest := by
  obtain ⟨hlines, hbody⟩ := hfirst.eq_of_start
  refine ⟨by rw [hsecond.lines, hlines], fun h => ?_, fun h => ?_⟩
  · obtain ⟨n, hn⟩ := Option.isSome_iff_exists.1 (hmarker.2 h)
    refine ⟨n, hn, ?_⟩
    rw [hsecond.bodyStart?, hn, hlines, Option.map_some, Option.some_or]
  · have hnone : b₂.bodyStart? = none := by simpa using mt hmarker.1 h
    rw [hsecond.bodyStart?, hnone, Option.map_none, Option.none_or, hbody]

namespace RunState

variable {s s₁ s₂ : RunState} {ask ask' : Resolver}

/-- What a run has in the end, from the state `s` on, after a paper and after two
    papers into which it was cut. -/
structure Joins (s : RunState) (source first second : Source) (rest : String)
    (s₁ s₂ : RunState) : Prop where
  /-- It has gathered the same, but for places. -/
  state : s₁.Matches s₂
  /-- The buffers of the parts make up that of the paper. -/
  buffers : ∃ b b₁ b₂, s₁.buffers = s.buffers ++ [b] ∧ s₂.buffers = s.buffers ++ [b₁, b₂] ∧
    b.source = source ∧ b₁.source = first ∧ b₂.source = second ∧ b.Joins b₁ b₂ rest.toList

/-- A paper that is cut into two at the end of a line is scanned as before. -/
theorem agree_scan_append (s : RunState) {start : String} (rest : String)
    (hstart : start = "" ∨ ∃ body, start = body ++ "\n")
    (hask : ask.Cut ask' s.buffers.length (inclusiveLines start.toList).length)
    (source first second : Source) :
    AgreeUpTo Failure.Matches (s.Joins source first second rest)
      (s.scan ask source (start ++ rest))
      (s.scanAll ask' [(first, start), (second, rest)]) := by
  have hlines : inclusiveLines (start ++ rest).toList =
      inclusiveLines start.toList ++ inclusiveLines rest.toList := by
    rw [String.toList_append, inclusiveLines_append]
    rcases hstart with rfl | ⟨body, rfl⟩
    · exact .inl rfl
    · exact .inr ⟨body.toList, String.toList_append⟩
  rw [scan, hlines, scanLines_append, bind_assoc, scanAll, scan, bind_assoc]
  -- The lines before the cut are scanned from the same state.
  refine (agree_scanLines_place (.refl s) .start 1 1 _ fun i hi => ?_).bind
    fun r r' hfront hfront' hr => ?_
  · exact (hask.before _ (by omega)).symm
  obtain ⟨t, b⟩ := r
  obtain ⟨t', b₁⟩ := r'
  obtain ⟨hstate, hbuffer⟩ := hr
  obtain ⟨hbuffers, hsource⟩ := buffers_scanLines hfront
  obtain ⟨hbuffers', hsource'⟩ := buffers_scanLines hfront'
  change AgreeUpTo _ _ _ (scanAll ask' (t'.withBuffers (t'.buffers ++ [b₁])) [(second, rest)])
  rw [scanAll_singleton, scan]
  -- The lines after it are scanned from states that match.
  refine (agree_scanLines_place (hstate.withBuffers _) .start _ 1 _ fun i _ => ?_).bind
    fun r r' hback hback' hr => .ok ?_
  · have hpaper : (t'.withBuffers (t'.buffers ++ [b₁])).buffers.length = s.buffers.length + 1 := by
      rw [withBuffers, hbuffers', List.length_append, List.length_singleton]
    rw [hpaper, hask.after _ (by omega), hbuffers, Nat.add_left_comm, Nat.add_assoc]
  · obtain ⟨u, b⟩ := r
    obtain ⟨u', b₂⟩ := r'
    obtain ⟨hstate', hbuffer'⟩ := hr
    obtain ⟨hbuffers₁, hsource₁⟩ := buffers_scanLines hback
    obtain ⟨hbuffers₂, hsource₂⟩ := buffers_scanLines hback'
    refine ⟨⟨hstate'.forms, hstate'.exports, hstate'.imported, hstate'.diagnostics⟩,
      b, b₁, b₂, ?_, ?_, hsource₁.trans hsource, hsource', hsource₂, ?_⟩
    · rw [hbuffers₁, hbuffers]
    · rw [hbuffers₂, withBuffers, hbuffers', List.append_assoc, List.singleton_append]
    · refine Buffer.joins_of_extends hbuffer hbuffer' ?_
      rw [isSome_bodyStart?_scanLines hback', startsBody_iff_exists_line]

/-- A store that knows nothing. -/
def emptyStore (r : Request) : Answer :=
  .error (.unknownContent r.iri)

/-- The start of a paper, with a short form and the marker. -/
def openingText : String :=
  "\\rdfprefix\x7bex\x7d\x7bhttps://example.org/\x7d\n\\begin\x7bdocument\x7d" ++ "\n"

/-- The rest of it, with an import in which the short form stands, and the marker
    again. -/
def closingText : String :=
  "\\rdfimport\x7bl\x7d\x7bk\x7d\x7bex:i\x7d\x7bs\x7d\n\\begin\x7bdocument\x7d\n"

/-- The paper as a whole. -/
def wholePaper : Source :=
  { path := ⟨"a.rdf.tex"⟩, output := ⟨"a.tex"⟩ }

/-- Its start as a paper of its own. -/
def openingPaper : Source :=
  { path := ⟨"b.rdf.tex"⟩, output := ⟨"b.tex"⟩ }

/-- Its rest as a paper of its own. -/
def closingPaper : Source :=
  { path := ⟨"c.rdf.tex"⟩, output := ⟨"c.tex"⟩ }

/-- The import is told of in another place, and the second marker counts. -/
theorem joins_wholePaper : ∃ s₁ s₂,
    scan (fun _ => emptyStore) {} wholePaper (openingText ++ closingText) = .ok s₁ ∧
      scanAll (fun _ => emptyStore) {}
        [(openingPaper, openingText), (closingPaper, closingText)] = .ok s₂ ∧
      Joins {} wholePaper openingPaper closingPaper closingText s₁ s₂ ∧
      s₁.diagnostics.map (·.place) = [some ⟨wholePaper.path, 3⟩] ∧
      s₂.diagnostics.map (·.place) = [some ⟨closingPaper.path, 1⟩] ∧
      s₁.buffers.map (·.bodyStart?) = [some 1] ∧
      s₂.buffers.map (·.bodyStart?) = [some 0, some 0] := by
  have hjoins : AgreeUpTo Failure.Matches
      (Joins {} wholePaper openingPaper closingPaper closingText)
      (scan (fun _ => emptyStore) {} wholePaper (openingText ++ closingText))
      (scanAll (fun _ => emptyStore) {}
        [(openingPaper, openingText), (closingPaper, closingText)]) :=
    agree_scan_append {} closingText (.inr ⟨_, rfl⟩) (Resolver.cut_const ..) _ _ _
  have hwhole : (scan (fun _ => emptyStore) {} wholePaper (openingText ++ closingText)).toOption.map
      (fun s => (s.diagnostics.map (·.place), s.buffers.map (·.bodyStart?))) =
        some ([some ⟨wholePaper.path, 3⟩], [some 1]) := by
    decide +kernel
  have hparts : (scanAll (fun _ => emptyStore) {}
        [(openingPaper, openingText), (closingPaper, closingText)]).toOption.map
      (fun s => (s.diagnostics.map (·.place), s.buffers.map (·.bodyStart?))) =
        some ([some ⟨closingPaper.path, 1⟩], [some 0, some 0]) := by
    decide +kernel
  generalize scan _ {} wholePaper _ = x, scanAll _ {} _ = y at *
  cases hjoins with
  | error => simp [Except.toOption] at hwhole
  | ok h =>
    obtain ⟨hplaces, hstarts⟩ := Prod.mk.inj (Option.some.inj hwhole)
    obtain ⟨hplaces', hstarts'⟩ := Prod.mk.inj (Option.some.inj hparts)
    exact ⟨_, _, rfl, rfl, h, hplaces, hplaces', hstarts, hstarts'⟩

end RunState

end PaperGraph
