import PaperGraph.Proofs.Rendering
import PaperGraph.Proofs.Substitution

/-!
# The start of the body

The environments of a run go before what is left of the last line in which the
body of the document starts. The marker of that start may be gone from it: a
line that declares a short form, imports or exports takes along what else
stands in it. Where the marker is kept, it follows the environments directly.

* `Property.infix_substituted`: a marker that is gone when the properties of a
  line are replaced stood in one of them;
* `Reading.KeepsMarker`, `Reading.TakesMarker`: what becomes of the marker of a
  line, which is one of the two;
* `Reading.KeepsMarker.newline_not_mem_text`: a line that keeps its marker stays
  one line, since no short form ever brings in a newline;
* `Draft.Opens`: what the output of the root holds around its environments.
-/

namespace PaperGraph

open Text

/-! ## Lines stay lines -/

/-- No short form brings in a newline. -/
def RunState.FormsInline (s : RunState) : Prop :=
  ∀ form ∈ s.forms.entries, '\n' ∉ form.2.toList

theorem newline_not_mem_resolve {forms : Dictionary} {text : List Char}
    (hforms : ∀ form ∈ forms.entries, '\n' ∉ form.2.toList) (h : '\n' ∉ text) :
    '\n' ∉ ShortForms.resolve forms text := by
  rw [ShortForms.resolve]
  generalize forms.entries = entries at hforms
  induction entries generalizing text with
  | nil => exact h
  | cons form entries ih =>
    rw [List.forall_mem_cons] at hforms
    refine ih (fun hm => ?_) hforms.2
    rcases mem_of_mem_replaceAll hm with hm | hm
    · exact hforms.1 hm
    · exact h hm

/-- A group is closed after its text. -/
theorem newline_not_mem_group {text : List Char} {s : Groups.Split}
    (h : Groups.split text = .ok s) (htext : '\n' ∉ text.dropLast) {group : List Char}
    (hgroup : group ∈ s.groups) : '\n' ∉ group := by
  intro hm
  obtain ⟨front, back, hgroups⟩ := List.append_of_mem hgroup
  have hsource : text = (s.leading ++ front.flatMap Groups.braced ++ '\x7b' :: group) ++
      '\x7d' :: (back.flatMap Groups.braced ++ s.rest) := by
    rw [← Groups.source_split h, Groups.Split.source, Groups.Split.consumed, hgroups]
    simp [Groups.braced]
  rw [hsource, List.dropLast_append_of_ne_nil (by simp)] at htext
  exact htext (by simp [hm])

theorem newline_not_mem_arguments {d : Directive} {forms : Dictionary} {line offset : Nat}
    {text : List Char} {s : Groups.Split} (h : Groups.split text = .ok s)
    (hforms : ∀ form ∈ forms.entries, '\n' ∉ form.2.toList) (htext : '\n' ∉ text.dropLast) :
    ∀ argument ∈ (Invocation.ofSplit d forms line offset s).arguments, '\n' ∉ argument.toList := by
  intro argument hargument
  obtain ⟨group, hgroup, rfl⟩ := List.mem_map.1 hargument
  rw [String.toList_ofList]
  exact newline_not_mem_resolve hforms (newline_not_mem_group h htext hgroup)

/-- The end of a line has no newline but at its end. -/
theorem newline_not_mem_suffix {text rest : List Char} (h : rest <:+ text)
    (htext : '\n' ∉ text.dropLast) : '\n' ∉ rest.dropLast := by
  obtain ⟨start, rfl⟩ := h
  by_cases hrest : rest = []
  · simp [hrest]
  · rw [List.dropLast_append_of_ne_nil hrest, List.mem_append, not_or] at htext
    exact htext.2

/-- A line stays one line when its properties are replaced. -/
theorem Property.newline_not_mem_rewrite {forms : Dictionary} {place : Place} {offset : Nat}
    {text text' : List Char} {properties : List Property}
    (h : rewrite forms place offset text = .ok (text', properties))
    (hforms : ∀ form ∈ forms.entries, '\n' ∉ form.2.toList) (htext : '\n' ∉ text.dropLast) :
    '\n' ∉ text'.dropLast := by
  fun_induction rewrite forms place offset text generalizing text' properties
  case case1 =>
    obtain ⟨rfl, rfl⟩ := Prod.mk.inj (Except.ok.inj h)
    exact htext
  case case5 text before found hfound start split hsplit p hp rest properties hrest ih =>
    obtain ⟨rfl, rfl⟩ := Prod.mk.inj (Except.ok.inj h)
    obtain rfl := Directive.append_of_occurrence? hfound
    have hne := (length_of_occurrence? hfound).2
    rw [List.dropLast_append_of_ne_nil hne, List.mem_append, not_or] at htext
    have hobject : '\n' ∉ p.object.toList :=
      newline_not_mem_arguments hsplit hforms htext.2 _ (by
        rw [(ofInvocation_eq_ok_iff.1 hp).1]
        simp)
    have hsuffix : split.rest <:+ found := by
      rw [← Groups.source_split hsplit]
      exact List.suffix_append _ _
    have hrest := ih hrest (newline_not_mem_suffix hsuffix htext.2)
    by_cases hnil : rest = []
    · rw [hnil, List.append_nil]
      exact fun hm => (List.mem_append.1 ((List.dropLast_sublist _).subset hm)).elim htext.1 hobject
    · rw [List.dropLast_append_of_ne_nil hnil]
      simp [htext.1, hobject, hrest]
  -- Otherwise a property cannot be taken.
  all_goals simp at h

theorem Invocation.newline_not_mem_of_check {d : Directive} {forms : Dictionary} {place : Place}
    {offset : Nat} {text : List Char} {i : Invocation} (h : check d forms place offset text = .ok i)
    (hforms : ∀ form ∈ forms.entries, '\n' ∉ form.2.toList) (htext : '\n' ∉ text.dropLast) :
    ∀ argument ∈ i.arguments, '\n' ∉ argument.toList := by
  have hread := (check_eq_ok h).1
  rw [read] at hread
  split at hread
  · next hsplit =>
    obtain rfl := Except.ok.inj hread
    exact newline_not_mem_arguments hsplit hforms htext
  · simp at hread

theorem RunState.Handled.formsInline {answer : Request → Answer} {s s' : RunState} {place : Place}
    {line : List Char} {output : LineOutput} (h : Handled answer s place line s' output)
    (hline : '\n' ∉ line.dropLast) (hs : s.FormsInline) : s'.FormsInline := by
  cases h with
  | declared hclassify hcheck hi =>
    intro form hform
    rcases mem_insertOrdered hform with rfl | hform
    · refine Invocation.newline_not_mem_of_check hcheck hs (newline_not_mem_suffix ?_ hline) _ ?_
      · rw [Directive.append_of_classify hclassify]
        exact List.suffix_append _ _
      · simp [hi]
    · exact hs form hform
  -- Nothing else changes the short forms.
  | _ => exact hs

theorem newline_not_mem_ofPapers {first : Nat} {papers : List (Source × String)} {line : Line}
    (h : line ∈ (Line.ofPapers first papers).flatten) : '\n' ∉ line.text.dropLast := by
  obtain ⟨lines, hlines, hline⟩ := List.mem_flatten.1 h
  obtain ⟨⟨⟨source, text⟩, paper⟩, _, rfl⟩ := List.mem_map.1 hlines
  obtain ⟨⟨cs, number⟩, hcs, rfl⟩ := List.mem_map.1 hline
  exact newline_not_mem_dropLast (List.fst_mem_of_mem_zipIdx hcs)

/-! ## Markers -/

theorem bodyMarker_ne_nil : bodyMarker.toList ≠ [] := by
  decide

theorem newline_not_mem_bodyMarker : '\n' ∉ bodyMarker.toList := by
  decide

namespace Property

variable {forms : Dictionary} {o : Occurrence} {os : List Occurrence} {p : Property}
  {ps : List Property} {needle rest : List Char}

theorem Occurrence.StandsBefore.head?_own (h : o.StandsBefore rest) :
    (o.own ++ rest).head? = some '\\' := by
  obtain ⟨after, hafter⟩ := h.first.starts
  rw [← hafter]
  rfl

/-- A property that is stated has groups, and ends with the brace of the last one. -/
theorem Occurrence.States.getLast?_own (h : o.States forms p) : o.own.getLast? = some '\x7d' := by
  have hne : o.groups ≠ [] := by
    intro hnil
    simp [States, arguments, hnil] at h
  obtain ⟨groups, group, hgroups⟩ := (List.eq_nil_or_concat o.groups).resolve_left hne
  have hown : o.own = o.leading ++ groups.flatMap Groups.braced ++ '\x7b' :: group ++ ['\x7d'] := by
    simp [own, hgroups, Groups.braced]
  rw [hown, List.getLast?_concat]

/-- What stands in a line, and starts with a backslash and ends with a brace that have
    no like in it, stands in a property or is left when all properties are replaced. -/
theorem infix_substituted (hstart : '\\' ∉ needle.tail) (hend : '\x7d' ∉ needle.dropLast)
    (hlaid : AreLaidOut os rest) (hstates : os.Forall₂ (Occurrence.States forms) ps)
    (h : needle <:+: os.flatMap Occurrence.text ++ rest) :
    (∃ o ∈ os, needle <:+: o.own) ∨ needle <:+: substituted os ps ++ rest := by
  induction hstates with
  | nil => exact .inr h
  | @cons o p os ps ho _ ih =>
    have hcons : substituted (o :: os) (p :: ps) ++ rest =
        o.before ++ (p.object.toList ++ (substituted os ps ++ rest)) := by
      simp [substituted]
    rw [List.flatMap_cons, Occurrence.text, List.append_assoc, List.append_assoc] at h
    rw [hcons]
    rcases infix_append_of_head? hstart hlaid.1.head?_own h with h | h
    · exact .inr (h.trans (List.prefix_append _ _).isInfix)
    rcases infix_append_of_getLast? hend ho.getLast?_own h with h | h
    · exact .inl ⟨o, List.mem_cons_self, h⟩
    rcases ih hlaid.2 h with ⟨q, hq, h⟩ | h
    · exact .inl ⟨q, List.mem_cons_of_mem o hq, h⟩
    · exact .inr ((h.trans (List.suffix_append _ _).isInfix).trans (List.suffix_append _ _).isInfix)

/-- If the marker is gone from a line whose properties were replaced, it stood in one. -/
theorem exists_marked_occurrence {s : RunState} {place : Place} {line : List Char} {text : String}
    (h : (s.recordProperties place line).2 = .replaced text) (hline : startsBody line)
    (htext : ¬ startsBody text.toList) : ∃ l : Layout, l.WellFormed ∧ l.text = line ∧
      ∃ o ∈ l.occurrences, bodyMarker.toList <:+: o.own := by
  obtain ⟨l, hl, rfl⟩ := exists_layout line
  refine ⟨l, hl, rfl, ?_⟩
  generalize houtcome : s.recordProperties place l.text = outcome at h
  have hyields := houtcome ▸ hl.yields s place
  cases hyields with
  | @replaced ps tail hstates hending =>
    obtain rfl := LineOutput.replaced.inj h
    have hlaid := hl.1
    have hmarker := occursIn_iff.1 hline
    rw [hending] at hlaid
    rw [Layout.text, hending] at hmarker
    refine (infix_substituted (by decide) (by decide) hlaid hstates hmarker).resolve_right ?_
    exact fun hleft => htext (occursIn_iff.2 (by rwa [String.toList_ofList]))
  | refused => simp at h
  | unclosed => simp at h

end Property

namespace Reading

/-- The marker of the body is still in what is left of the line. -/
inductive KeepsMarker (r : Reading) : Prop where
  /-- The line has no directive, or one that is refused, and stays as it is. -/
  | verbatim (houtput : r.output = .original)
  /-- It states properties, and the marker stands in what is left when they are
      replaced. -/
  | rewritten {before found : List Char} {text : String}
      (hline : Directive.classify r.line.text = some (.property, before, found))
      (houtput : r.output = .replaced text) (hmarker : PaperGraph.startsBody text.toList)

/-- A directive takes the marker of the body with it. -/
inductive TakesMarker (r : Reading) : Prop where
  /-- The line declares a short form. -/
  | declared {before found : List Char}
      (hline : Directive.classify r.line.text = some (.shortForm, before, found))
      (houtput : r.output = .dropped)
  /-- It imports a contribution, which is shown in its place. -/
  | imported {before found : List Char} {snippet : String}
      (hline : Directive.classify r.line.text = some (.importing, before, found))
      (houtput : r.output = .replaced (snippet ++ String.ofList (lineEnding found)))
  /-- It asks for a contribution that it does not get. -/
  | unresolved {before found : List Char}
      (hline : Directive.classify r.line.text = some (.importing, before, found))
      (houtput : r.output = .dropped)
  /-- It records an export. -/
  | recorded {before found : List Char}
      (hline : Directive.classify r.line.text = some (.exporting, before, found))
      (houtput : r.output = .dropped)
  /-- It states properties, and the marker stands in one of them and not in what
      is left when they are replaced. -/
  | stated {before found : List Char} {text : String} {l : Property.Layout}
      {o : Property.Occurrence}
      (hline : Directive.classify r.line.text = some (.property, before, found))
      (houtput : r.output = .replaced text) (hmarker : ¬ PaperGraph.startsBody text.toList)
      (hlayout : l.WellFormed ∧ l.text = r.line.text) (ho : o ∈ l.occurrences)
      (hown : bodyMarker.toList <:+: o.own)

variable {answer : Request → Answer} {r : Reading}

/-- A marker is kept, or a directive takes it with it. -/
theorem keepsMarker_or_takesMarker
    (h : r.before.handle answer r.line.place r.line.text = .ok (r.after, r.output))
    (hr : r.startsBody) : r.KeepsMarker ∨ r.TakesMarker := by
  obtain ⟨line, before, output, after⟩ := r
  have hhandled : RunState.Handled answer before line.place line.text after output :=
    RunState.handled_of_handle h
  cases hhandled with
  | plain hline => exact .inl (.verbatim rfl)
  | @refused d _ _ _ hline hd hcheck =>
    by_cases hform : d = .shortForm
    · subst hform
      exact .inr (.declared hline rfl)
    · exact .inl (.verbatim (if_neg hform))
  | declared hline => exact .inr (.declared hline rfl)
  | imported hline => exact .inr (.imported hline rfl)
  | unresolved hline => exact .inr (.unresolved hline rfl)
  | recorded hline => exact .inr (.recorded hline rfl)
  | kept hline => exact .inl (.verbatim rfl)
  | @stated _ _ text _ hline hrewrite =>
    by_cases hmarker : PaperGraph.startsBody (String.ofList text).toList
    · exact .inl (.rewritten hline rfl hmarker)
    · have houtput : (before.recordProperties line.place line.text).2 =
          .replaced (String.ofList text) := by
        rw [RunState.recordProperties, hrewrite]
      obtain ⟨l, hl, htext, o, ho, hown⟩ :=
        Property.exists_marked_occurrence houtput hr hmarker
      exact .inr (.stated hline rfl hmarker ⟨hl, htext⟩ ho hown)

/-- The body starts in what is left of a line that keeps its marker. -/
theorem KeepsMarker.startsBody_text (h : r.KeepsMarker) (hr : r.startsBody) :
    PaperGraph.startsBody r.text.toList := by
  cases h with
  | verbatim houtput =>
    simp only [text, houtput, String.toList_ofList]
    exact hr
  | rewritten hline houtput hmarker =>
    rw [text, houtput]
    exact hmarker

/-- A line that keeps its marker stays one line. -/
theorem KeepsMarker.newline_not_mem_text (h : r.KeepsMarker)
    (hhandle : r.before.handle answer r.line.place r.line.text = .ok (r.after, r.output))
    (hforms : r.before.FormsInline) (hline : '\n' ∉ r.line.text.dropLast) :
    '\n' ∉ r.text.toList.dropLast := by
  cases h with
  | verbatim houtput =>
    rw [text, houtput]
    simpa using hline
  | @rewritten before found text hproperty houtput _ =>
    rw [Reading.text, houtput]
    rw [RunState.handle, hproperty, houtput] at hhandle
    have houtput : (r.before.recordProperties r.line.place r.line.text).2 = .replaced text :=
      congrArg Prod.snd (Except.ok.inj hhandle)
    rw [RunState.recordProperties] at houtput
    split at houtput
    · simp at houtput
    · next hrewrite =>
      obtain rfl := LineOutput.replaced.inj houtput
      rw [String.toList_ofList]
      exact Property.newline_not_mem_rewrite hrewrite hforms hline

/-- What is left of a line stands in what is left of all lines. -/
theorem infix_texts {readings : List Reading} (h : r ∈ readings) :
    r.text.toList <:+: (texts readings).toList := by
  obtain ⟨before, after, rfl⟩ := List.append_of_mem h
  refine ⟨(texts before).toList, (texts after).toList, ?_⟩
  simp

end Reading

/-- A text has the marker if one of its lines has it. -/
theorem startsBody_iff_exists_line {text : List Char} :
    startsBody text ↔ ∃ line ∈ inclusiveLines text, startsBody line := by
  constructor
  · intro h
    obtain ⟨line, hline, hmarker⟩ :=
      exists_line_of_occurrence bodyMarker_ne_nil newline_not_mem_bodyMarker (occursIn_iff.1 h)
    exact ⟨line, hline, occursIn_iff.2 hmarker⟩
  · rintro ⟨line, hline, h⟩
    obtain ⟨front, back, hlines⟩ := List.append_of_mem hline
    refine occursIn_iff.2 ((occursIn_iff.1 h).trans ⟨front.flatten, back.flatten, ?_⟩)
    rw [← inclusiveLines_flatten text, hlines, List.flatten_append, List.flatten_cons,
      List.append_assoc]

/-- A line with the marker that follows a newline is a line of the text. -/
theorem exists_startsBody_after {before marked after : List Char}
    (hmarker : bodyMarker.toList <:+: marked) (hline : '\n' ∉ marked.dropLast) :
    ∃ line rest, inclusiveLines (before ++ '\n' :: (marked ++ after)) =
      inclusiveLines (before ++ ['\n']) ++ line :: rest ∧ startsBody line := by
  have hne : marked ≠ [] := fun hnil =>
    bodyMarker_ne_nil (List.eq_nil_of_infix_nil (hnil ▸ hmarker))
  obtain ⟨line, rest, hlines, hfirst⟩ := exists_first_line hne hline after
  refine ⟨line, rest, ?_, occursIn_iff.2 (hmarker.trans hfirst.isInfix)⟩
  rw [inclusiveLines_append_newline, hlines]

/-! ## Environments end in a newline -/

theorem Latex.toList_block_concat (ls : List String) (l : String) :
    (block (ls ++ [l])).toList = (block ls).toList ++ l.toList ++ ['\n'] := by
  rw [block, List.map_append, String.join_append, block, List.map_singleton, String.join_cons]
  simp

theorem Kind.exists_newline_environment? {k : Kind} {environment : String}
    (h : k.environment? = some environment) : ∃ start, environment.toList = start ++ ['\n'] := by
  have hcounted (env font heading title titles : String) :
      ∃ start, (countedEnvironment env font heading title titles).toList = start ++ ['\n'] := by
    rw [countedEnvironment]
    exact ⟨_, Latex.toList_block_concat [_, _, _, _] _⟩
  cases k with
  | definition => simp [environment?] at h
  | figure =>
    obtain rfl := Option.some.inj h
    exact ⟨_, Latex.toList_block_concat [] _⟩
  | _ =>
    obtain rfl := Option.some.inj h
    exact hcounted ..

/-! ## The body of a draft -/

section

variable {ask : Resolver} {papers : List (Source × String)} {draft : Draft}
  {readings : List (List Reading)} {n : Nat} {before after : List Reading} {r q : Reading}

/-- Every line was handled in a state whose short forms bring in no newline. -/
theorem Draft.Transcribes.handle (h : draft.Transcribes ask papers readings)
    (hq : q ∈ readings.flatten) :
    q.before.handle (ask q.line.moment) q.line.place q.line.text = .ok (q.after, q.output) ∧
      q.before.FormsInline ∧ '\n' ∉ q.line.text.dropLast := by
  obtain ⟨s, hchain⟩ := h.chain
  have hinline (p : Reading) (hp : p ∈ readings.flatten) : '\n' ∉ p.line.text.dropLast := by
    have hmem : p.line ∈ (readings.map (·.map (·.line))).flatten := by
      rw [← List.map_flatten]
      exact List.mem_map_of_mem hp
    rw [h.lines] at hmem
    exact newline_not_mem_ofPapers hmem
  have hforms := hchain.invariant (P := RunState.FormsInline) (fun _ h => absurd h List.not_mem_nil)
    fun p hp hhandle => (RunState.handled_of_handle hhandle).formsInline (hinline p hp)
  exact ⟨hchain.handle_of_mem hq, hforms.2 q hq, hinline q hq⟩

theorem IsRoot.mem_flatten (h : IsRoot readings n before r after) (hq : q ∈ before ++ r :: after) :
    q ∈ readings.flatten :=
  List.mem_flatten.2 ⟨_, List.mem_of_getElem? h.paper, hq⟩

/-- The output of the root. -/
theorem Draft.Transcribes.exists_output (h : draft.Transcribes ask papers readings) :
    ∃ n before r after output, IsRoot readings n before r after ∧
      draft.outputs[n]? = some output ∧ output.source.path = draft.root ∧
      output.text =
        Reading.texts before ++ String.join draft.preamble ++ Reading.texts (r :: after) := by
  obtain ⟨n, before, r, after, hroot, hpath, htexts⟩ := h.texts
  have hn := (List.getElem?_eq_some_iff.1 hroot.paper).1
  have hlength : draft.outputs.length = readings.length := by
    simpa using congrArg List.length htexts
  have houtput := List.getElem?_eq_getElem (hlength ▸ hn)
  refine ⟨n, before, r, after, _, hroot, houtput, ?_, ?_⟩
  · have hsource := congrArg (·[n]?.map (·.path)) h.sources
    simp only [List.getElem?_map, houtput, Option.map_map, Option.map_some] at hsource
    exact Option.some.inj (hsource.trans hpath)
  · have htext := congrArg (·[n]?) htexts
    simp only [List.getElem?_map, houtput, Option.map_some] at htext
    rw [List.getElem?_set_self (by rwa [List.length_map])] at htext
    exact Option.some.inj htext

end

/-- What a draft says of the start of the body: the output of the root, of which
    `r` is the last line in which the body starts. -/
structure Draft.Opens (draft : Draft) (ask : Resolver) (papers : List (Source × String))
    (output : Output) (before : List Reading) (r : Reading) (after : List Reading) : Prop where
  /-- The lines are those of the root, read in the run. -/
  read : ∃ readings n, draft.Transcribes ask papers readings ∧ IsRoot readings n before r after ∧
    draft.outputs[n]? = some output
  /-- The output is that of the root. -/
  root : output.source.path = draft.root
  /-- The environments stand directly before what is left of the last line in
      which the body starts. -/
  text : output.text =
    Reading.texts before ++ String.join draft.preamble ++ Reading.texts (r :: after)
  /-- A marker is kept, or a directive takes it with it. -/
  markers : ∀ q ∈ before ++ r :: after, q.startsBody → q.KeepsMarker ∨ q.TakesMarker
  /-- If any marker is kept, the body starts in a line of the output. -/
  starts : (∃ q ∈ before ++ r :: after, q.startsBody ∧ q.KeepsMarker) →
    ∃ line ∈ inclusiveLines output.text.toList, startsBody line
  /-- If the last marker is kept, the body starts in the line that follows the
      last environment. -/
  follows : r.KeepsMarker → ∀ others last, draft.preamble = others ++ [last] →
    ∃ line rest, inclusiveLines output.text.toList =
      inclusiveLines (Reading.texts before ++ String.join others ++ last).toList ++ line :: rest ∧
        startsBody line

theorem Draft.exists_opens {ask : Resolver} {papers : List (Source × String)} {draft : Draft}
    (h : Draft.ofTexts ask papers = .ok draft) :
    ∃ output before r after, draft.Opens ask papers output before r after := by
  obtain ⟨readings, htranscribes⟩ := Draft.exists_transcript h
  obtain ⟨n, before, r, after, output, hroot, houtput, hpath, htext⟩ := htranscribes.exists_output
  refine ⟨output, before, r, after, ⟨readings, n, htranscribes, hroot, houtput⟩, hpath, htext,
    fun q hq hstart => ?_, ?_, fun hkeeps others last hlast => ?_⟩
  · exact Reading.keepsMarker_or_takesMarker (htranscribes.handle (hroot.mem_flatten hq)).1 hstart
  · rintro ⟨q, hq, hstart, hkeeps⟩
    have hmarker : bodyMarker.toList <:+: q.text.toList :=
      occursIn_iff.1 (hkeeps.startsBody_text hstart)
    have hoccurs : bodyMarker.toList <:+: output.text.toList := by
      rw [htext, String.toList_append, String.toList_append]
      rcases List.mem_append.1 hq with hq | hq
      · exact (hmarker.trans (Reading.infix_texts hq)).trans
          ((List.prefix_append _ _).trans (List.prefix_append _ _)).isInfix
      · exact (hmarker.trans (Reading.infix_texts hq)).trans (List.suffix_append _ _).isInfix
    obtain ⟨line, hline, hoccurs⟩ :=
      exists_line_of_occurrence bodyMarker_ne_nil newline_not_mem_bodyMarker hoccurs
    exact ⟨line, hline, occursIn_iff.2 hoccurs⟩
  · obtain ⟨hhandle, hforms, hline⟩ :=
      htranscribes.handle (hroot.mem_flatten (List.mem_append_right _ List.mem_cons_self))
    have hmarker : bodyMarker.toList <:+: r.text.toList :=
      occursIn_iff.1 (hkeeps.startsBody_text hroot.starts)
    have hmem : last ∈ draft.preamble := by
      rw [hlast]
      exact List.mem_append_right _ List.mem_cons_self
    obtain ⟨k, _, hk⟩ := List.mem_filterMap.1 hmem
    obtain ⟨start, hstart⟩ := Kind.exists_newline_environment? hk
    have htoList : output.text.toList =
        (Reading.texts before ++ String.join others).toList ++ start ++
          '\n' :: (r.text.toList ++ (Reading.texts after).toList) := by
      rw [htext, hlast, Reading.texts_cons]
      simp [String.join_append, String.toList_append, hstart]
    have hupTo : (Reading.texts before ++ String.join others ++ last).toList =
        (Reading.texts before ++ String.join others).toList ++ start ++ ['\n'] := by
      rw [String.toList_append, hstart, List.append_assoc]
    rw [htoList, hupTo]
    exact exists_startsBody_after hmarker (hkeeps.newline_not_mem_text hhandle hforms hline)

namespace Run

/-- A run that succeeds, over texts or over files, puts its environments
    directly before what is left of the last line of the root in which the body
    starts; where that line keeps its marker, the body starts right after them. -/
theorem opens_on (ask : Resolver) (options : RunOptions) (id : String) (t : Tree) :
    (∀ papers report, ((ofTexts ask options id papers).on t).1 = .ok report →
      ∃ output before r after, report.draft.Opens ask papers output before r after) ∧
    ∀ sources report, ((ofSources ask options id sources).on t).1 = .ok report →
      ∃ papers : List (Source × String), papers.map (·.1) = sources ∧
        (∀ paper ∈ papers, t.read paper.1.path = .ok paper.2) ∧
          ∃ output before r after, report.draft.Opens ask papers output before r after := by
  refine ⟨fun papers report h => Draft.exists_opens (draft_of_ofTexts h),
    fun sources report h => ?_⟩
  rw [on_ofSources] at h
  split at h
  · next papers hpapers =>
    have hread : Work.on (sources.mapM readPaper) t = (.ok papers, _) := Prod.ext hpapers rfl
    exact ⟨papers, sources_readPapers hread, read_of_readPapers hread,
      Draft.exists_opens (draft_of_ofTexts h)⟩
  · simp at h

/-- A store that knows one figure. -/
def figureStore : Resolver :=
  fun _ _ => .ok { snippet := "figure", kind := .figure }

/-- A paper with an import, and a property in the line in which the body starts. -/
def keptPapers : List (Source × String) :=
  [({ path := ⟨"a.rdf.tex"⟩, output := ⟨"a.tex"⟩ },
    "\\rdfimport\x7bl\x7d\x7bk\x7d\x7bi\x7d\x7bs\x7d\n" ++
    "\\begin\x7bdocument\x7d\\rdfproperty\x7be\x7d\x7bp\x7d\x7bo\x7d\n")]

/-- The property is replaced, and the marker stays. -/
theorem opens_keptPapers :
    ∃ report, ((ofTexts figureStore sampleOptions "a1" keptPapers).on {}).1 = .ok report ∧
      (∃ output before r after,
        report.draft.Opens figureStore keptPapers output before r after) ∧
      report.draft.outputs.map (·.text) =
        ["figure\n\\usepackage[export]\x7badjustbox\x7d\n\\begin\x7bdocument\x7do\n"] := by
  have htexts : ((ofTexts figureStore sampleOptions "a1" keptPapers).on {}).1.toOption.map
      (fun r => r.draft.outputs.map (·.text)) =
        some ["figure\n\\usepackage[export]\x7badjustbox\x7d\n\\begin\x7bdocument\x7do\n"] := by
    decide +kernel
  obtain ⟨report, hreport, htexts⟩ := Option.map_eq_some_iff.1 htexts
  rw [toOption_eq_some_iff] at hreport
  exact ⟨report, hreport, (opens_on figureStore sampleOptions "a1" {}).1 _ _ hreport, htexts⟩

/-- A paper with an import, and a short form in the line in which the body
    starts. -/
def takenPapers : List (Source × String) :=
  [({ path := ⟨"a.rdf.tex"⟩, output := ⟨"a.tex"⟩ },
    "\\rdfimport\x7bl\x7d\x7bk\x7d\x7bi\x7d\x7bs\x7d\n" ++
    "\\rdfprefix\x7ba\x7d\x7bb\x7d\\begin\x7bdocument\x7d\nText.\n")]

/-- The declaration takes the marker with it: there is an environment, but the
    body starts nowhere in the root. -/
theorem not_startsBody_takenPapers :
    ∃ report, ((ofTexts figureStore sampleOptions "a1" takenPapers).on {}).1 = .ok report ∧
      report.draft.preamble ≠ [] ∧
      ∃ output ∈ report.draft.outputs, output.source.path = report.draft.root ∧
        ∀ line ∈ inclusiveLines output.text.toList, ¬ startsBody line := by
  have hdraft : ((ofTexts figureStore sampleOptions "a1" takenPapers).on {}).1.toOption.map
      (fun r => (r.draft.root, r.draft.imported, r.draft.outputs)) =
        some (⟨"a.rdf.tex"⟩, [.figure], [{
          source := { path := ⟨"a.rdf.tex"⟩, output := ⟨"a.tex"⟩ }
          text := "figure\n\\usepackage[export]\x7badjustbox\x7d\nText.\n" }]) := by
    decide +kernel
  obtain ⟨report, hreport, hdraft⟩ := Option.map_eq_some_iff.1 hdraft
  rw [toOption_eq_some_iff] at hreport
  obtain ⟨hroot, himported, houtputs⟩ : _ ∧ _ ∧ _ := by simpa only [Prod.mk.injEq] using hdraft
  refine ⟨report, hreport, ?_, _, by rw [houtputs]; exact List.mem_cons_self, hroot.symm, ?_⟩
  · rw [Draft.preamble, Draft.shown, himported]
    decide
  · decide +kernel

end Run

end PaperGraph
