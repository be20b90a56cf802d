import PaperGraph.Proofs.Facts
import PaperGraph.Proofs.Occurrences
import PaperGraph.Proofs.Rendering

/-!
# What a run collects

The exports of a run hold what its lines record, in the order of the lines and
across papers, and nothing else. A line that declares an export records its kind
and its pairs; a line whose properties were replaced records these, one by one.

* `Exports.names_collect`, `Exports.get?_collect`: pairs that are added under
  names one after the other are found in this order under their names, and the
  names in the order in which they are first mentioned;
* `Reading.mentions`: what a line records;
* `RunState.Handles.exports_eq`: the exports are what all lines record;
* `Exports.Collects`: all that is said above, of the exports of a run and the
  readings of its lines; they hold of every run (`Run.collects_on`).
-/

namespace PaperGraph

open Text

/-! ## Records -/

namespace Exports

variable {exports : Exports} {name other : String} {pairs : Facts}
  {mentions : List (String × Facts)}

@[simp]
theorem names_append (exports : Exports) (name : String) (pairs : Facts) :
    (exports.append name pairs).map (·.name) =
      if name ∈ exports.map (·.name) then exports.map (·.name)
      else exports.map (·.name) ++ [name] := by
  induction exports with
  | nil => rfl
  | cons r rest ih =>
    rw [append]
    by_cases hr : r.name = name
    · simp [hr]
    · rw [if_neg hr, List.map_cons, ih]
      simp only [List.map_cons, List.mem_cons, Ne.symm hr, false_or]
      split_ifs
      · rfl
      · rfl

theorem get?_cons (r : Record) (rest : Exports) :
    get? (r :: rest) name = if r.name = name then some r else get? rest name := by
  rw [get?, List.find?_cons]
  by_cases hr : r.name = name
  · simp [hr]
  · simp [hr, get?]

/-- Pairs are added to the record of their name, and to no other one. -/
@[simp]
theorem get?_append : (exports.append name pairs).get? other =
    if other = name then some { name, pairs := (exports.get? name).elim [] (·.pairs) ++ pairs }
    else exports.get? other := by
  induction exports with
  | nil => simp [append, get?, eq_comm]
  | cons r rest ih =>
    rw [append]
    by_cases hr : r.name = name
    · subst hr
      rw [if_pos rfl, get?_cons, get?_cons, get?_cons]
      by_cases hother : other = r.name
      · simp [hother]
      · simp [hother, Ne.symm hother]
    · rw [if_neg hr, get?_cons, ih, get?_cons, get?_cons, if_neg hr]
      by_cases hother : other = name
      · simp [hother, hr]
      · simp [hother]

/-- The records after pairs were added under names one after the other. -/
def collect (exports : Exports) (mentions : List (String × Facts)) : Exports :=
  mentions.foldl (fun e m => e.append m.1 m.2) exports

theorem collect_append (exports : Exports) (first second : List (String × Facts)) :
    exports.collect (first ++ second) = (exports.collect first).collect second :=
  List.foldl_append

theorem collect_concat (exports : Exports) (mentions : List (String × Facts))
    (m : String × Facts) :
    exports.collect (mentions ++ [m]) = (exports.collect mentions).append m.1 m.2 :=
  List.foldl_concat ..

/-- The pairs that were added under a name. -/
def pairsUnder (name : String) (mentions : List (String × Facts)) : Facts :=
  (mentions.filter (·.1 = name)).flatMap (·.2)

/-- The names stand in the order in which they are first mentioned. -/
theorem names_collect (mentions : List (String × Facts)) :
    (collect [] mentions).map (·.name) = (mentions.map (·.1)).eraseDups := by
  -- From the end, where what is mentioned last is added.
  induction mentions using List.reverseRecOn with
  | nil => rfl
  | append_singleton mentions m ih =>
    rw [collect_concat, names_append, ih, List.map_append, List.map_singleton, eraseDups_concat]
    simp only [List.mem_eraseDups]

/-- Under a name stand the pairs that were added under it, if it was mentioned. -/
theorem get?_collect (mentions : List (String × Facts)) (name : String) :
    (collect [] mentions).get? name =
      if name ∈ mentions.map (·.1) then some { name, pairs := pairsUnder name mentions }
      else none := by
  induction mentions using List.reverseRecOn with
  | nil => rfl
  | append_singleton mentions m ih =>
    rw [collect_concat, get?_append]
    by_cases hm : name = m.1
    · subst hm
      rw [if_pos rfl, ih]
      by_cases hmem : m.1 ∈ mentions.map (·.1)
      · simp [hmem, pairsUnder]
      · have hnone : mentions.filter (·.1 = m.1) = [] :=
          List.filter_eq_nil_iff.2 fun n hn hname =>
            hmem (by simpa [of_decide_eq_true hname] using List.mem_map_of_mem (f := (·.1)) hn)
        simp [hmem, pairsUnder, hnone]
    · have hmem : name ∈ (mentions ++ [m]).map (·.1) ↔ name ∈ mentions.map (·.1) := by simp [hm]
      have hpairs : pairsUnder name (mentions ++ [m]) = pairsUnder name mentions := by
        simp [pairsUnder, Ne.symm hm]
      simp only [hm, if_false, ih, hmem, hpairs]

end Exports

/-! ## Lines -/

/-- What an occurrence of the directive of exports records: under its name, its
    kind and its pairs. -/
def exported? (forms : Dictionary) (found : List Char) : Option (String × Facts) :=
  match Groups.split found with
  | .error _ => none
  | .ok split =>
    match split.arguments forms with
    | [name, kind, list] =>
      (Pairs.parse list.toList).toOption.map fun pairs => (name, (Vocabulary.type, kind) :: pairs)
    | _ => none

theorem exported?_of_ne {forms : Dictionary} {found : List Char} {split : Groups.Split}
    (hsplit : Groups.split found = .ok split)
    (harity : split.groups.length ≠ Directive.exporting.arity) : exported? forms found = none := by
  rw [exported?, hsplit]
  dsimp only
  split
  · next harguments =>
    rw [← Groups.Split.length_arguments _ forms, harguments] at harity
    exact absurd rfl harity
  · rfl

/-- What a line records of which that output is left: pairs under names. -/
def mentioned (forms : Dictionary) (line : List Char) (output : LineOutput) :
    List (String × Facts) :=
  match Directive.classify line, output with
  | some (.exporting, _, found), _ => (exported? forms found).toList
  | some (.property, _, _), .replaced _ =>
    (Property.stated forms line).map fun p => (p.name, [(p.predicate, p.object)])
  | _, _ => []

/-- What a line records. -/
def Reading.mentions (r : Reading) : List (String × Facts) :=
  mentioned r.before.forms r.line.text r.output

namespace RunState

variable {ask : Resolver} {answer : Request → Answer} {s s' : RunState} {place : Place}
  {line : List Char} {output : LineOutput}

/-- An invocation that does not pass records nothing. -/
theorem mentioned_of_refused {d : Directive} {forms : Dictionary} {before found : List Char}
    {offset : Nat} {complaint : Diagnostic}
    (hline : Directive.classify line = some (d, before, found))
    (hd : d ≠ .property) (hcheck : Invocation.check d forms place offset found = .error complaint) :
    mentioned forms line output = [] := by
  cases d with
  | shortForm => simp only [mentioned, hline]
  | importing => simp only [mentioned, hline]
  | property => exact absurd rfl hd
  | exporting =>
    rcases (Invocation.of_check_eq_error hcheck).2 with ⟨u, hsplit⟩ | ⟨split, hsplit, harity⟩
    · simp [mentioned, hline, exported?, hsplit]
    · simp [mentioned, hline, exported?_of_ne hsplit harity]

/-- A line adds what it records to the exports. -/
theorem Handled.exports_eq (h : Handled answer s place line s' output) :
    s'.exports = s.exports.collect (mentioned s.forms line output) := by
  cases h with
  | plain hline =>
    simp only [mentioned, hline]
    rfl
  | refused hline hd hcheck =>
    rw [mentioned_of_refused hline hd hcheck]
    rfl
  | declared hline =>
    simp only [mentioned, hline]
    rfl
  | imported hline =>
    simp only [mentioned, hline]
    rfl
  | unresolved hline =>
    simp only [mentioned, hline]
    rfl
  | @recorded _ _ i name kind list pairs hline hcheck hi hpairs =>
    obtain ⟨split, hsplit, _, rfl⟩ := Invocation.check_eq_ok_iff.1 hcheck
    rw [Invocation.arguments_ofSplit] at hi
    simp only [mentioned, hline, exported?, hsplit, hi, hpairs]
    rfl
  | kept hline =>
    simp only [mentioned, hline]
    rfl
  | stated hline hrewrite =>
    simp only [mentioned, hline]
    rw [← Property.stated_of_rewrite hrewrite, Exports.collect, List.foldl_map]

/-- A line that stays as it is records nothing. -/
theorem Handled.mentioned_eq_nil (h : Handled answer s place line s' output)
    (houtput : output = .original) : mentioned s.forms line output = [] := by
  cases h with
  | plain hline => simp only [mentioned, hline]
  | refused hline hd hcheck => exact mentioned_of_refused hline hd hcheck
  | kept hline => simp only [mentioned, hline]
  -- Of all other lines something else is left.
  | _ => simp at houtput

/-- The exports of a run are what all its lines record. -/
theorem Handles.exports_eq {readings : List Reading} (h : Handles ask s readings s') :
    s'.exports = s.exports.collect (readings.flatMap Reading.mentions) := by
  induction readings generalizing s with
  | nil =>
    obtain rfl : s' = s := h
    rfl
  | cons r readings ih =>
    obtain ⟨rfl, hhandle, hrest⟩ := h
    rw [ih hrest, (handled_of_handle hhandle).exports_eq, List.flatMap_cons, Exports.collect_append]
    rfl

end RunState

/-! ## Runs -/

/-- What holds of the exports of a run over some papers. -/
structure Exports.Collects (exports : Exports) (ask : Resolver) (papers : List (Source × String))
    (readings : List (List Reading)) : Prop where
  /-- All lines of all papers were read. -/
  lines : readings.map (·.map (·.line)) = Line.ofPapers 0 papers
  /-- Beginning with nothing, every line was handled in the state that all
      earlier lines have left, those of earlier papers included. -/
  chain : ∃ s, RunState.Handles ask {} readings.flatten s
  /-- There is a record for every name that a line mentions, in the order in
      which they are first mentioned. -/
  names : exports.map (·.name) = ((readings.flatten.flatMap Reading.mentions).map (·.1)).eraseDups
  /-- A record holds what the lines record under its name, in their order. -/
  records : ∀ name, exports.get? name =
    if name ∈ (readings.flatten.flatMap Reading.mentions).map (·.1) then
      some { name, pairs := pairsUnder name (readings.flatten.flatMap Reading.mentions) }
    else none
  /-- Nothing is recorded by a line that stays as it is, that declares a short
      form, or that imports. -/
  silent : ∀ r ∈ readings.flatten, (r.output = .original ∨
    ∃ before found, Directive.classify r.line.text = some (.shortForm, before, found) ∨
      Directive.classify r.line.text = some (.importing, before, found)) → r.mentions = []

theorem RunState.exists_collects {ask : Resolver} {papers : List (Source × String)} {s : RunState}
    (h : RunState.scanAll ask {} papers = .ok s) :
    ∃ readings, s.exports.Collects ask papers readings := by
  obtain ⟨readings, _, hlines, hchain, _, _⟩ := RunState.exists_handles_of_scanAll h
  have hexports : s.exports =
      Exports.collect [] (readings.flatten.flatMap Reading.mentions) := hchain.exports_eq
  refine ⟨readings, hlines, ⟨_, hchain⟩, ?_, fun name => ?_, fun r hr hsilent => ?_⟩
  · rw [hexports, Exports.names_collect]
  · rw [hexports, Exports.get?_collect]
  · rcases hsilent with houtput | ⟨before, found, hline | hline⟩
    · exact (RunState.handled_of_handle (hchain.handle_of_mem hr)).mentioned_eq_nil houtput
    · simp only [Reading.mentions, mentioned, hline]
    · simp only [Reading.mentions, mentioned, hline]

theorem Draft.exports_of_ofTexts {ask : Resolver} {papers : List (Source × String)} {draft : Draft}
    (h : Draft.ofTexts ask papers = .ok draft) :
    ∃ s, RunState.scanAll ask {} papers = .ok s ∧ draft.exports = s.exports := by
  obtain ⟨s, hscan, hdraft⟩ := bind_eq_ok_iff.1 h
  obtain ⟨_, _, hdraft⟩ := bind_eq_ok_iff.1 hdraft
  exact ⟨s, hscan, by rw [← Except.ok.inj hdraft]⟩

namespace Run

/-- Whenever the papers of a run are scanned to their end, and whatever comes of
    it then, its exports are what its lines have recorded. -/
theorem collects_on (ask : Resolver) (options : RunOptions) (id : String) (t : Tree) :
    (∀ papers s, RunState.scanAll ask {} papers = .ok s →
      ∃ readings, s.exports.Collects ask papers readings) ∧
    (∀ papers report, ((ofTexts ask options id papers).on t).1 = .ok report →
      ∃ readings, report.draft.exports.Collects ask papers readings) ∧
    ∀ sources report, ((ofSources ask options id sources).on t).1 = .ok report →
      ∃ papers : List (Source × String), papers.map (·.1) = sources ∧
        (∀ paper ∈ papers, t.read paper.1.path = .ok paper.2) ∧
          ∃ readings, report.draft.exports.Collects ask papers readings := by
  have hdraft {papers : List (Source × String)} {draft : Draft}
      (h : Draft.ofTexts ask papers = .ok draft) :
      ∃ readings, draft.exports.Collects ask papers readings := by
    obtain ⟨s, hscan, hexports⟩ := Draft.exports_of_ofTexts h
    rw [hexports]
    exact RunState.exists_collects hscan
  refine ⟨fun _ _ => RunState.exists_collects, fun _ _ h => hdraft (draft_of_ofTexts h),
    fun sources report h => ?_⟩
  obtain ⟨papers, hsources, hread, hrun⟩ := exists_papers_of_ofSources h
  rw [hrun] at h
  exact ⟨papers, hsources, hread, hdraft (draft_of_ofTexts h)⟩

/-- Two papers that share an export and a short form. The last lines of both do
    not have all their arguments. -/
def sharedPapers : List (Source × String) :=
  [({ path := ⟨"a.rdf.tex"⟩, output := ⟨"a.tex"⟩ },
    "\\rdfprefix\x7bt\x7d\x7bns/\x7d\n" ++
    "\\rdfexport\x7be\x7d\x7bDefinition\x7d\x7bt:p=o\x7d\n" ++
    "\\rdfexport\x7be\x7d\x7bDefinition\x7d\n"),
   ({ path := ⟨"b.rdf.tex"⟩, output := ⟨"b.tex"⟩ },
    "\\begin\x7bdocument\x7d\n" ++
    "\\rdfproperty\x7bf\x7d\x7bt:q\x7d\x7bv\x7d and \\rdfproperty\x7be\x7d\x7bt:q\x7d\x7bw\x7d\n" ++
    "\\rdfproperty\x7be\x7d\x7bt:q\x7d\x7blost\x7d \\rdfproperty\x7be\x7d\x7bt:q\x7d\n")]

/-- The export of the first paper gets a pair in the second one, which mentions
    another export before; what the refused lines state is not recorded. -/
theorem collects_sharedPapers :
    let ask : Resolver := fun _ _ => .error (.unavailable "")
    let outcome := (ofTexts ask sampleOptions "a1" sharedPapers).on {}
    (∃ report, outcome.1 = .ok report ∧
      ∃ readings, report.draft.exports.Collects ask sharedPapers readings) ∧
    outcome.1.toOption.map (·.draft.exports) =
      some [{ name := "e",
              pairs := [(Vocabulary.type, "Definition"), ("ns/p", "o"), ("ns/q", "w")] },
            { name := "f", pairs := [("ns/q", "v")] }] := by
  intro ask outcome
  have hexports : outcome.1.toOption.map (·.draft.exports) =
      some [{ name := "e",
              pairs := [(Vocabulary.type, "Definition"), ("ns/p", "o"), ("ns/q", "w")] },
            { name := "f", pairs := [("ns/q", "v")] }] := by
    decide +kernel
  obtain ⟨report, hreport, _⟩ := Option.map_eq_some_iff.1 hexports
  rw [toOption_eq_some_iff] at hreport
  exact ⟨⟨report, hreport, (collects_on ask sampleOptions "a1" {}).2.1 _ _ hreport⟩, hexports⟩

end Run

end PaperGraph
