import Mathlib.Data.List.Basic
import PaperGraph.Proofs.Steps
import PaperGraph.Run.Handling

/-!
# What becomes of a line

All that the handling of a line can come to: which part of the state of a run
it changes, and what is left of the line (`RunState.Handled`). Whatever holds of
each of these cases holds of every line.

* `Invocation.check_eq_ok`: an invocation that passes has its number of
  arguments;
* `RunState.handled_of_handle`: there are no other cases;
* `RunState.Handled.mem_imported_iff`: a line adds the kind of what it asks the
  store for (`request?`) and gets to those imported, and no other one.
-/

namespace PaperGraph

open Text

/-- A line is split where a directive occurs, and nothing is lost. -/
theorem Directive.append_of_occurrence? {d : Directive} {line before found : List Char}
    {previous : Option Char} (h : d.occurrence? line previous = some (before, found)) :
    line = before ++ found := by
  induction line generalizing previous before with
  | nil => simp [occurrence?] at h
  | cons c line ih =>
    rw [occurrence?] at h
    split at h
    · obtain ⟨rfl, rfl⟩ := Prod.mk.inj (Option.some.inj h)
      rfl
    · obtain ⟨⟨b, f⟩, hb, he⟩ := Option.map_eq_some_iff.1 h
      obtain ⟨rfl, rfl⟩ := Prod.mk.inj he
      rw [ih hb, List.cons_append]

theorem Directive.append_of_classify {d : Directive} {line before found : List Char}
    (h : classify line = some (d, before, found)) : line = before ++ found := by
  obtain ⟨e, _, he⟩ := List.exists_of_findSome?_eq_some h
  obtain ⟨split, hsplit, he⟩ := Option.map_eq_some_iff.1 he
  obtain ⟨rfl, rfl⟩ := Prod.mk.inj he
  exact append_of_occurrence? hsplit

theorem Invocation.check_eq_ok {d : Directive} {forms : Dictionary} {place : Place} {offset : Nat}
    {text : List Char} {i : Invocation} (h : check d forms place offset text = .ok i) :
    read d forms place.line offset text = .ok i ∧ i.arguments.length = d.arity := by
  rw [check] at h
  split at h
  · next j hread =>
    split at h
    · next harity =>
      obtain rfl := Except.ok.inj h
      refine ⟨hread, ?_⟩
      -- The directive of an invocation is the one that was read.
      have hdirective : j.directive = d := by
        rw [read] at hread
        split at hread
        · rw [← Except.ok.inj hread]
          rfl
        · simp at hread
      rw [hasArity, hdirective] at harity
      exact of_decide_eq_true harity
    · simp at h
  · simp at h

/-- What a line asks a store for, if it imports something. -/
def request? (forms : Dictionary) (place : Place) (line : List Char) : Option Request :=
  match Directive.classify line with
  | some (.importing, before, found) =>
    match Invocation.check .importing forms place (utf8Size before) found with
    | .ok { arguments := [label, key, iri, store], .. } => some { iri, label, key, store }
    | _ => none
  | _ => none

theorem request?_eq_some {forms : Dictionary} {place : Place} {line before found : List Char}
    {i : Invocation} {label key iri store : String}
    (hline : Directive.classify line = some (.importing, before, found))
    (hcheck : Invocation.check .importing forms place (utf8Size before) found = .ok i)
    (hi : i.arguments = [label, key, iri, store]) :
    request? forms place line = some { iri, label, key, store } := by
  obtain ⟨_, arguments, _, _⟩ := i
  obtain rfl : arguments = [label, key, iri, store] := hi
  simp only [request?, hline, hcheck]

/-- A line that does not belong to the directive of imports asks for nothing. -/
theorem request?_eq_none {forms : Dictionary} {place : Place} {line : List Char}
    (h : ∀ before found, Directive.classify line ≠ some (.importing, before, found)) :
    request? forms place line = none := by
  rw [request?]
  split
  · next before found hline => exact absurd hline (h before found)
  · rfl

theorem mem_adjoin_iff {k kind : Kind} {kinds : List Kind} :
    k ∈ kind.adjoin kinds ↔ k ∈ kinds ∨ k = kind := by
  have hall : k ∈ Kind.all := by cases k <;> decide
  simp [Kind.adjoin, hall, or_comm]

namespace RunState

/-- What the handling of a line in the state `s` comes to: the state that it
    leaves, and what becomes of the line. -/
inductive Handled (answer : Request → Answer) (s : RunState) (place : Place) (line : List Char) :
    RunState → LineOutput → Prop where
  /-- The line has no directive. -/
  | plain (hline : Directive.classify line = none) : Handled answer s place line s .original
  /-- Its invocation cannot be read, or has a wrong number of arguments. -/
  | refused {d : Directive} {before found : List Char} {complaint : Diagnostic}
      (hline : Directive.classify line = some (d, before, found)) (hd : d ≠ .property)
      (hcheck : Invocation.check d s.forms place (utf8Size before) found = .error complaint) :
      Handled answer s place line (s.report complaint)
        (if d = .shortForm then .dropped else .original)
  /-- It declares a short form. -/
  | declared {before found : List Char} {i : Invocation} {token expansion : String}
      (hline : Directive.classify line = some (.shortForm, before, found))
      (hcheck : Invocation.check .shortForm s.forms place (utf8Size before) found = .ok i)
      (hi : i.arguments = [token, expansion]) :
      Handled answer s place line { s with forms := s.forms.insert token expansion } .dropped
  /-- It imports a contribution. -/
  | imported {before found : List Char} {i : Invocation} {label key iri store : String}
      {resolution : Resolution}
      (hline : Directive.classify line = some (.importing, before, found))
      (hcheck : Invocation.check .importing s.forms place (utf8Size before) found = .ok i)
      (hi : i.arguments = [label, key, iri, store])
      (hanswer : answer { iri, label, key, store } = .ok resolution) :
      Handled answer s place line { s with imported := resolution.kind.adjoin s.imported }
        (.replaced (resolution.snippet ++ String.ofList (lineEnding found)))
  /-- It asks for a contribution that it does not get. -/
  | unresolved {before found : List Char} {i : Invocation} {label key iri store : String}
      {fault : ResolveFault}
      (hline : Directive.classify line = some (.importing, before, found))
      (hcheck : Invocation.check .importing s.forms place (utf8Size before) found = .ok i)
      (hi : i.arguments = [label, key, iri, store])
      (hanswer : answer { iri, label, key, store } = .error fault) :
      Handled answer s place line (s.report (unresolvedWarning iri fault place)) .dropped
  /-- It records an export. -/
  | recorded {before found : List Char} {i : Invocation} {name kind list : String} {pairs : Facts}
      (hline : Directive.classify line = some (.exporting, before, found))
      (hcheck : Invocation.check .exporting s.forms place (utf8Size before) found = .ok i)
      (hi : i.arguments = [name, kind, list]) (hpairs : Pairs.parse list.toList = .ok pairs) :
      Handled answer s place line
        { s with exports := s.exports.append name ((Vocabulary.type, kind) :: pairs) } .dropped
  /-- One of its properties cannot be taken. -/
  | kept {before found : List Char} {complaint : Diagnostic}
      (hline : Directive.classify line = some (.property, before, found))
      (hrewrite : Property.rewrite s.forms place 0 line = .error complaint) :
      Handled answer s place line (s.report complaint) .original
  /-- It states properties. -/
  | stated {before found text : List Char} {properties : List Property}
      (hline : Directive.classify line = some (.property, before, found))
      (hrewrite : Property.rewrite s.forms place 0 line = .ok (text, properties)) :
      Handled answer s place line
        { s with exports :=
            properties.foldl (fun e p => e.append p.name [(p.predicate, p.object)]) s.exports }
        (.replaced (String.ofList text))

variable {answer : Request → Answer} {s s' : RunState} {place : Place}
  {line before found : List Char} {output : LineOutput}

theorem handled_declareForm (hline : Directive.classify line = some (.shortForm, before, found)) :
    Handled answer s place line (s.declareForm place before found).1
      (s.declareForm place before found).2 := by
  rw [declareForm]
  split
  · next hcheck => exact .refused hline (by decide) hcheck
  · next hcheck => exact .declared hline hcheck rfl
  · next i hother hcheck =>
    obtain ⟨token, expansion, hi⟩ := List.length_eq_two.1 (Invocation.check_eq_ok hcheck).2
    exact absurd (by rw [← hi]) (hother i.directive token expansion i.line i.endOffset)

theorem handled_importContent
    (hline : Directive.classify line = some (.importing, before, found)) :
    Handled answer s place line (s.importContent answer place before found).1
      (s.importContent answer place before found).2 := by
  rw [importContent]
  split
  · next hcheck => exact .refused hline (by decide) hcheck
  · next hcheck =>
    split
    · next hanswer => exact .imported hline hcheck rfl hanswer
    · next hanswer => exact .unresolved hline hcheck rfl hanswer
  · next i hother hcheck =>
    have harity := (Invocation.check_eq_ok hcheck).2
    obtain ⟨label, rest, hi⟩ := List.exists_cons_of_length_eq_add_one harity
    have hrest : rest.length = 3 := by simpa [hi, Directive.arity] using harity
    obtain ⟨key, iri, store, rfl⟩ := List.length_eq_three.1 hrest
    exact absurd (by rw [← hi]) (hother i.directive label key iri store i.line i.endOffset)

theorem handled_recordExport (hline : Directive.classify line = some (.exporting, before, found))
    (h : s.recordExport place before found = .ok (s', output)) :
    Handled answer s place line s' output := by
  rw [recordExport] at h
  split at h
  · next hcheck =>
    obtain ⟨rfl, rfl⟩ := Prod.mk.inj (Except.ok.inj h)
    exact .refused hline (by decide) hcheck
  · next hcheck =>
    split at h
    · next hpairs =>
      obtain ⟨rfl, rfl⟩ := Prod.mk.inj (Except.ok.inj h)
      exact .recorded hline hcheck rfl hpairs
    · simp at h
  · next i hother hcheck =>
    obtain ⟨name, kind, list, hi⟩ := List.length_eq_three.1 (Invocation.check_eq_ok hcheck).2
    exact absurd (by rw [← hi]) (hother i.directive name kind list i.line i.endOffset)

theorem handled_recordProperties
    (hline : Directive.classify line = some (.property, before, found)) :
    Handled answer s place line (s.recordProperties place line).1
      (s.recordProperties place line).2 := by
  rw [recordProperties]
  split
  · next hrewrite => exact .kept hline hrewrite
  · next hrewrite => exact .stated hline hrewrite

/-- Whatever a line comes to is one of the cases. -/
theorem handled_of_handle (h : s.handle answer place line = .ok (s', output)) :
    Handled answer s place line s' output := by
  rw [handle] at h
  split at h
  · next hline =>
    obtain ⟨rfl, rfl⟩ := Prod.mk.inj (Except.ok.inj h)
    exact .plain hline
  · next hline =>
    obtain ⟨rfl, rfl⟩ := Prod.ext_iff.1 (Except.ok.inj h)
    exact handled_declareForm hline
  · next hline =>
    obtain ⟨rfl, rfl⟩ := Prod.ext_iff.1 (Except.ok.inj h)
    exact handled_importContent hline
  · next hline => exact handled_recordExport hline h
  · next split hline =>
    obtain ⟨rfl, rfl⟩ := Prod.ext_iff.1 (Except.ok.inj h)
    exact handled_recordProperties hline

/-- A line adds the kind of what it gets from the store to those imported. -/
theorem Handled.mem_imported_iff (h : Handled answer s place line s' output) (k : Kind) :
    k ∈ s'.imported ↔ k ∈ s.imported ∨ ∃ request snippet,
      request? s.forms place line = some request ∧ answer request = .ok { snippet, kind := k } := by
  -- Where nothing is asked for there is nothing to add.
  have hnothing (hrequest : request? s.forms place line = none) :
      k ∈ s.imported ↔ k ∈ s.imported ∨ ∃ request snippet,
        request? s.forms place line = some request ∧
          answer request = .ok { snippet, kind := k } := by
    simp [hrequest]
  cases h with
  | plain hline => exact hnothing (request?_eq_none (by simp [hline]))
  | refused hline hd hcheck =>
    refine hnothing ?_
    rw [request?]
    split
    · next before found hline' =>
      obtain ⟨rfl, rfl, rfl⟩ : _ ∧ _ ∧ _ := by simpa using hline.symm.trans hline'
      rw [hcheck]
    · rfl
  | declared hline hcheck hi =>
    exact hnothing (request?_eq_none (by simp [hline]))
  | imported hline hcheck hi hanswer =>
    rw [mem_adjoin_iff, request?_eq_some hline hcheck hi]
    refine or_congr_right ⟨?_, ?_⟩
    · rintro rfl
      exact ⟨_, _, rfl, hanswer⟩
    · rintro ⟨request, snippet, hrequest, hgot⟩
      obtain rfl := Option.some.inj hrequest
      obtain rfl := Except.ok.inj (hanswer.symm.trans hgot)
      rfl
  | unresolved hline hcheck hi hanswer =>
    refine (or_iff_left ?_).symm
    rintro ⟨request, snippet, hrequest, hgot⟩
    obtain rfl := Option.some.inj ((request?_eq_some hline hcheck hi).symm.trans hrequest)
    simp [hanswer] at hgot
  | recorded hline hcheck hi hpairs =>
    exact hnothing (request?_eq_none (by simp [hline]))
  | kept hline hrewrite =>
    exact hnothing (request?_eq_none (by simp [hline]))
  | stated hline hrewrite =>
    exact hnothing (request?_eq_none (by simp [hline]))

end RunState

end PaperGraph
