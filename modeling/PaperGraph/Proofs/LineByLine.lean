import PaperGraph.Graph.NTriples
import PaperGraph.Proofs.Cutting
import PaperGraph.Proofs.Steps

/-!
# Reading line by line

Every line of a document is read for itself: what it states does not depend on the
lines around it. So a document that is cut at the end of a line is read in two parts,
the second one with the numbers of its lines put forward, and the first line that is no
statement is the fault of the whole. Lines that state nothing count for the numbers of
the lines after them, and for nothing else.

* `readLines_cons`: the one step of the reader, from which the rest follows;
* `readLines_append`, `readLines_shift`: lines after lines, and lines further down;
* `readLines_eq_error_iff`: the first line that is no statement decides;
* `length_lines`: how far down the second part of a document starts;
* `IsIdle`: a line that states nothing (`mapError_readLines_stated`).

All this together is `parse_lineByLine`.
-/

namespace PaperGraph.NTriples

open Text

variable {number : Nat} {line : List Char} {ls : List (List Char)}

/-! ## Lines after lines -/

/-- A line gives what it states, or its problem under its number, and then the next
    lines are read. -/
theorem readLines_cons (number : Nat) (line : List Char) (ls : List (List Char)) :
    readLines number (line :: ls) =
      (readLine line).mapError (fun problem => { line := number, problem }) >>= fun found =>
        (readLines (number + 1) ls).map (found.toList ++ ·) := by
  rw [readLines]
  rcases readLine line with problem | _ | t
  · rfl
  · rcases readLines (number + 1) ls with f | ts
    · rfl
    · rfl
  · rfl

/-- The fault as it is told if some lines are put in front. -/
def Fault.shift (count : Nat) (f : Fault) : Fault :=
  { f with line := f.line + count }

/-- Lines that stand further down are read alike. -/
theorem readLines_shift (number count : Nat) (ls : List (List Char)) :
    readLines (number + count) ls = (readLines number ls).mapError (Fault.shift count) := by
  induction ls generalizing number with
  | nil => rfl
  | cons line ls ih =>
    rw [readLines_cons, readLines_cons, mapError_bind, mapError_mapError, Nat.add_right_comm, ih]
    simp only [mapError_map, Fault.shift]

/-- Lines are read on from where those before them end. -/
theorem readLines_append (number : Nat) (front back : List (List Char)) :
    readLines number (front ++ back) = readLines number front >>= fun ts =>
      (readLines (number + front.length) back).map (ts ++ ·) := by
  induction front generalizing number with
  | nil =>
    rw [List.nil_append, List.length_nil, Nat.add_zero, readLines]
    exact (congrFun Except.map_id _).symm
  | cons line front ih =>
    rw [List.cons_append, readLines_cons, readLines_cons, bind_assoc, ih, List.length_cons,
      Nat.add_comm front.length 1, ← Nat.add_assoc]
    simp only [map_bind, bind_map, map_map, List.append_assoc]

theorem exists_readLines_iff : (∃ ts, readLines number ls = .ok ts) ↔
    ∀ line ∈ ls, ∃ found, readLine line = .ok found := by
  induction ls generalizing number with
  | nil => simp [readLines]
  | cons line ls ih =>
    rw [readLines_cons, List.forall_mem_cons, ← @ih (number + 1)]
    simp only [bind_eq_ok_iff, map_eq_ok_iff, mapError_eq_ok_iff]
    constructor
    · rintro ⟨_, found, hfound, ts, hts, _⟩
      exact ⟨⟨found, hfound⟩, ts, hts⟩
    · rintro ⟨⟨found, hfound⟩, ts, hts⟩
      exact ⟨_, found, hfound, ts, hts, rfl⟩

/-- Lines are refused for the first of them that is no statement. -/
theorem readLines_eq_error_iff {f : Fault} : readLines number ls = .error f ↔
    ∃ front line back, ls = front ++ line :: back ∧
      (∀ l ∈ front, ∃ found, readLine l = .ok found) ∧
        readLine line = .error f.problem ∧ f.line = number + front.length := by
  constructor
  · intro h
    induction ls generalizing number with
    | nil => simp [readLines] at h
    | cons line ls ih =>
      rw [readLines_cons] at h
      rcases hline : readLine line with problem | found
      · rw [hline] at h
        obtain rfl := Except.error.inj h
        exact ⟨[], line, ls, rfl, by simp, hline, rfl⟩
      · rw [hline] at h
        rcases hls : readLines (number + 1) ls with f' | ts
        · rw [hls] at h
          obtain rfl := Except.error.inj h
          obtain ⟨front, bad, back, rfl, hfront, hbad, hnumber⟩ := ih hls
          refine ⟨line :: front, bad, back, rfl, ?_, hbad, ?_⟩
          · exact List.forall_mem_cons.2 ⟨⟨found, hline⟩, hfront⟩
          · rw [hnumber, List.length_cons, Nat.add_assoc, Nat.add_comm 1]
        · rw [hls] at h
          cases h
  · rintro ⟨front, line, back, rfl, hfront, hline, hnumber⟩
    obtain ⟨ts, hts⟩ := exists_readLines_iff.2 hfront
    rw [readLines_append, hts, readLines_cons, hline, ← hnumber]
    rfl

/-! ## Lines that state nothing -/

/-- The line is blank, or a comment. -/
def IsIdle (line : List Char) : Prop :=
  trim line = [] ∨ (trim line).head? = some '#'

instance : DecidablePred IsIdle :=
  fun line => inferInstanceAs (Decidable (trim line = [] ∨ (trim line).head? = some '#'))

/-- The first character that is not blank is a number sign, if there is one. -/
theorem isIdle_iff : IsIdle line ↔ ∀ c ∈ (trimStart line).head?, c = '#' := by
  rw [IsIdle, ← List.head?_eq_none_iff, head?_trim]
  cases (trimStart line).head? with
  | none => simp
  | some c => simp

theorem isIdle_concat {c : Char} (h : isBlank c) : IsIdle (line ++ [c]) ↔ IsIdle line := by
  rw [isIdle_iff, isIdle_iff, trimStart, trimStart, List.dropWhile_append,
    List.dropWhile_cons_of_pos h]
  split
  · next hnone => rw [List.isEmpty_iff.1 hnone, List.dropWhile_nil]
  · next hsome =>
    rw [List.head?_append]
    cases hd : List.dropWhile isBlank line with
    | nil => exact absurd (List.isEmpty_iff.2 hd) hsome
    | cons => simp

/-- It does not matter how the line ends. -/
theorem isIdle_stripLineEnding (line : List Char) :
    IsIdle (stripLineEnding line) ↔ IsIdle line := by
  rw [stripLineEnding, lineEnding]
  split
  · next hcr =>
    obtain ⟨before, rfl⟩ := stripEnd?_isSome_iff.1 hcr
    have hends : before ++ ['\r', '\n'] = before ++ ['\r'] ++ ['\n'] := by simp
    rw [hends, isIdle_concat (by decide), isIdle_concat (by decide)]
    simp
  · split
    · next hnl =>
      obtain ⟨before, rfl⟩ := stripEnd?_isSome_iff.1 hnl
      rw [isIdle_concat (by decide)]
      simp
    · simp

theorem readLine_of_isIdle (h : IsIdle line) : readLine line = .ok none :=
  if_pos h

/-- Lines that state nothing only count for the numbers of those that do. -/
theorem mapError_readLines_stated (number number' : Nat) (ls : List (List Char)) :
    (readLines number ls).mapError (·.problem) =
      (readLines number' (ls.filter (¬ IsIdle ·))).mapError (·.problem) := by
  induction ls generalizing number number' with
  | nil => rfl
  | cons line ls ih =>
    rw [readLines_cons]
    by_cases hidle : IsIdle line
    · rw [List.filter_cons_of_neg (by simpa using hidle), ← ih (number + 1),
        readLine_of_isIdle hidle]
      exact congrArg _ (congrFun Except.map_id _)
    · rw [List.filter_cons_of_pos (by simpa using hidle), readLines_cons]
      simp only [mapError_bind, mapError_mapError, mapError_map,
        ih (number + 1) (number' + 1)]

/-! ## Documents -/

/-- A text that ends its last line has as many lines as newlines. -/
theorem length_lines {text : List Char} (h : text = [] ∨ ∃ body, text = body ++ ['\n']) :
    (lines text).length = text.count '\n' := by
  rw [lines, List.length_map]
  rcases h with rfl | ⟨body, rfl⟩
  · rfl
  · induction body with
    | nil => rfl
    | cons c body ih =>
      rw [List.cons_append, inclusiveLines, List.count_cons, ← ih]
      split
      · next hc => simp [hc]
      · next hc =>
        obtain ⟨line, others, hlines⟩ :
            ∃ line others, inclusiveLines (body ++ ['\n']) = line :: others := by
          refine List.exists_cons_of_ne_nil fun hnone => ?_
          have hflat := inclusiveLines_flatten (body ++ ['\n'])
          simp [hnone] at hflat
        simp [hlines, hc]

/-- The lines of a document that are neither blank nor comments. -/
def statedLines (document : String) : List (List Char) :=
  (lines document.toList).filter (¬ IsIdle ·)

/-- A blank line or a comment may be put in at the end of any line. -/
theorem statedLines_insert {start idle : String}
    (hstart : start = "" ∨ ∃ body, start = body ++ "\n") (hidle : IsIdle idle.toList)
    (hline : '\n' ∉ idle.toList) (rest : String) :
    statedLines (start ++ (idle ++ "\n" ++ rest)) = statedLines (start ++ rest) := by
  have hends := toList_endsLine hstart
  have hinserted : lines (idle ++ "\n" ++ rest).toList =
      stripLineEnding (idle.toList ++ ['\n']) :: lines rest.toList := by
    rw [String.toList_append, String.toList_append, List.append_assoc]
    exact congrArg (List.map stripLineEnding) (inclusiveLines_cons hline rest.toList)
  have hstripped : IsIdle (stripLineEnding (idle.toList ++ ['\n'])) := by
    rw [isIdle_stripLineEnding, isIdle_concat (by decide)]
    exact hidle
  rw [statedLines, statedLines, String.toList_append, lines_append hends, hinserted,
    String.toList_append, lines_append hends, List.filter_append, List.filter_append,
    List.filter_cons_of_neg (by simpa using hstripped)]

/-! ## Line by line -/

/-- A document is read line by line: its first line that is no statement is its fault, two
    documents in a row are read one after the other, and lines that state nothing can be
    put in anywhere, or left out. -/
theorem parse_lineByLine :
    (∀ (document : String) (f : Fault), parse document = .error f ↔
      ∃ front line back, lines document.toList = front ++ line :: back ∧
        (∀ l ∈ front, ∃ found, readLine l = .ok found) ∧
          readLine line = .error f.problem ∧ f.line = front.length + 1) ∧
    (∀ start rest : String, (start = "" ∨ ∃ body, start = body ++ "\n") →
      parse (start ++ rest) =
        match parse start, parse rest with
        | .error f, _ => .error f
        | .ok _, .error f => .error (f.shift (start.toList.count '\n'))
        | .ok g, .ok g' => .ok (.ofTriples (g.triples ++ g'.triples))) ∧
    ∀ first second : String, statedLines first = statedLines second →
      (parse first).mapError (·.problem) = (parse second).mapError (·.problem) := by
  refine ⟨fun document f => ?_, fun start rest hstart => ?_, fun first second hsame => ?_⟩
  · have hfault : parse document = .error f ↔ readLines 1 (lines document.toList) = .error f := by
      rw [parse]
      rcases readLines 1 (lines document.toList) with f' | ts
      · simp [Except.map]
      · simp [Except.map]
    simp only [hfault, readLines_eq_error_iff, Nat.add_comm 1]
  · have hends := toList_endsLine hstart
    rw [parse, String.toList_append, lines_append hends, readLines_append, length_lines hends,
      readLines_shift, parse, parse]
    rcases readLines 1 (lines start.toList) with f | ts
    · rfl
    · rcases readLines 1 (lines rest.toList) with f | us
      · rfl
      · rfl
  · rw [parse, parse, mapError_map, mapError_map, mapError_readLines_stated 1 1,
      mapError_readLines_stated 1 1 (lines second.toList)]
    exact congrArg _ (congrArg _ (congrArg _ hsame))

/-- A document that starts with a comment. -/
def notedDocument : String := "# a note\r\n_:b <p> \"x\" .\r\n"

/-- What it states. -/
def notedTriple : Triple where
  subject := .blank "b"
  predicate := "p"
  object := .plain "x"

/-- A document whose second line is not closed by a dot. -/
def openDocument : String := "\n<a> <p> <b>"

theorem parse_notedDocument :
    (∃ g, parse notedDocument = .ok g ∧ g.triples = [notedTriple]) ∧
    parse (notedDocument ++ openDocument) = .error { line := 4, problem := .noDot } ∧
    (parse (notedDocument ++ (" # another" ++ "\n" ++ openDocument))).mapError (·.problem) =
      .error .noDot := by
  obtain ⟨hfirst, happend, hstated⟩ := parse_lineByLine
  have hnoted : ∃ g, parse notedDocument = .ok g ∧ g.triples = [notedTriple] := by
    have hread : (parse notedDocument).toOption.map (·.triples) = some [notedTriple] := by
      decide +kernel
    obtain ⟨g, hg, htriples⟩ := Option.map_eq_some_iff.1 hread
    exact ⟨g, toOption_eq_some_iff.1 hg, htriples⟩
  have hopen : parse openDocument = .error { line := 2, problem := .noDot } := by
    have hbad : readLine "<a> <p> <b>".toList = .error .noDot := by rfl
    exact (hfirst _ _).2 ⟨[[]], _, [], by decide,
      List.forall_mem_singleton.2 ⟨none, rfl⟩, hbad, rfl⟩
  have hends : notedDocument = "" ∨ ∃ body, notedDocument = body ++ "\n" :=
    .inr ⟨"# a note\r\n_:b <p> \"x\" .\r", by decide⟩
  have hboth : parse (notedDocument ++ openDocument) =
      .error { line := 4, problem := .noDot } := by
    obtain ⟨g, hg, _⟩ := hnoted
    rw [happend _ _ hends, hg, hopen]
    rfl
  refine ⟨hnoted, hboth, ?_⟩
  rw [hstated _ _ (statedLines_insert hends (by decide) (by decide) openDocument), hboth]
  rfl

end PaperGraph.NTriples
