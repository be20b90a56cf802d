import Mathlib.Data.List.Forall2
import PaperGraph.Proofs.Cutting
import PaperGraph.Proofs.GroupForms
import PaperGraph.Proofs.Occurrences

/-!
# Objects in place of properties

A line is read from left to right. A property in it goes from the first place where
its command stands, after the property before it, to the last brace of its groups, or
to the end of the line if it has none. So every line is laid out in one way only: in
properties, with some text before each of them, and either some text without the
command at the end, or a property one of whose groups is not closed.

What becomes of a line can be told by its layout. If all of its properties have their
arguments, and all of the objects are resolved, each property is replaced by its
object and is recorded, and all other text stays. If not, the line stays as it is, and
the first property that cannot be taken is told to the author.

* `Property.Layout`: how a line is laid out (`Property.exists_layout`), and that in one
  way only (`Property.areLaidOut_inj`);
* `Property.Layout.Yields`: what becomes of a line that is laid out so;
* `RunState.existsUnique_layout_yields`: every line has one layout, and that becomes
  of it.
-/

namespace PaperGraph

open Text Groups

namespace Property

/-- The command of properties. -/
abbrev command : List Char :=
  Directive.property.command.toList

/-- A property in a line. -/
structure Occurrence where
  /-- The text between the property before it and its command. -/
  before : List Char
  /-- Its command, with what stands between that and its groups. -/
  leading : List Char
  /-- The texts of its groups. -/
  groups : List (List Char)
deriving DecidableEq, Repr

namespace Occurrence

/-- What the property takes up of the line. -/
def own (o : Occurrence) : List Char :=
  o.leading ++ o.groups.flatMap braced

/-- The property, with the text before it. -/
def text (o : Occurrence) : List Char :=
  o.before ++ o.own

/-- The property stands where its command does so first, and goes on as far as it
    has groups. -/
structure StandsBefore (o : Occurrence) (rest : List Char) : Prop where
  first : IsFirst command o.before (o.own ++ rest)
  leading : '\x7b' ∉ o.leading
  groups : ∀ g ∈ o.groups, Balanced g
  stops : rest.head? ≠ some '\x7b'
  /-- Without groups it goes on to the end of the line. -/
  ends : o.groups = [] → rest = []

/-- The arguments of the property, short forms resolved. -/
def arguments (o : Occurrence) (forms : Dictionary) : List String :=
  o.groups.map fun g => String.ofList (ShortForms.resolve forms g)

/-- The property has its three arguments, and the object among them is resolved. -/
def States (forms : Dictionary) (o : Occurrence) (p : Property) : Prop :=
  o.arguments forms = [p.name, p.predicate, p.object] ∧ p.object ≠ Vocabulary.unresolvedObject

/-- What is wrong with a property that cannot be taken: its object, if it has its three
    arguments, and otherwise their number. -/
def complaint (forms : Dictionary) (place : Place) (o : Occurrence) : Diagnostic :=
  match o.arguments forms with
  | [name, predicate, object] => unresolvedWarning { name, predicate, object } place
  | arguments =>
    { severity := .warning
      code := "rdftex::property::arity"
      message := "\\rdfproperty expects 3 arguments, found " ++ toString arguments.length
      place := some place }

end Occurrence

/-- What comes after the properties of a line. -/
inductive Ending where
  /-- No property. -/
  | text (tail : List Char)
  /-- A property with some groups that are closed, and one that is not. -/
  | unclosed (before leading : List Char) (groups : List (List Char)) (tail : List Char)
deriving DecidableEq, Repr

namespace Ending

/-- The end of the line. -/
def toText : Ending → List Char
  | text tail => tail
  | unclosed before leading groups tail =>
    before ++ (leading ++ groups.flatMap braced ++ '\x7b' :: tail)

/-- The parts of the end are what they are said to be. -/
def WellFormed : Ending → Prop
  | text tail => ¬ command <:+: tail
  | unclosed before leading groups tail =>
    IsFirst command before (leading ++ groups.flatMap braced ++ '\x7b' :: tail) ∧
      (Form.unclosed leading groups tail).WellFormed

end Ending

/-- Each of the properties stands before the next ones and the rest. -/
def AreLaidOut : List Occurrence → List Char → Prop
  | [], _ => True
  | o :: os, rest => o.StandsBefore (os.flatMap Occurrence.text ++ rest) ∧ AreLaidOut os rest

/-- How a line is laid out. -/
structure Layout where
  /-- Its properties, but for one with a group that is not closed. -/
  occurrences : List Occurrence
  /-- What comes after them. -/
  ending : Ending
deriving DecidableEq, Repr

namespace Layout

/-- The line that is laid out so. -/
def text (l : Layout) : List Char :=
  l.occurrences.flatMap Occurrence.text ++ l.ending.toText

/-- The parts of the layout are what they are said to be. -/
def WellFormed (l : Layout) : Prop :=
  AreLaidOut l.occurrences l.ending.toText ∧ l.ending.WellFormed

end Layout

/-- The text of some properties, with the objects in their places. -/
def substituted (os : List Occurrence) (ps : List Property) : List Char :=
  (List.zipWith (fun o p => o.before ++ p.object.toList) os ps).flatten

/-- The exports with some properties recorded, one after the other. -/
def record (exports : Exports) (ps : List Property) : Exports :=
  ps.foldl (fun e p => e.append p.name [(p.predicate, p.object)]) exports

/-- What becomes of a line that is laid out so, in a state of the run. -/
inductive Layout.Yields (l : Layout) (s : RunState) (place : Place) :
    RunState × LineOutput → Prop where
  /-- All properties can be taken: they are replaced by their objects and recorded. -/
  | replaced {ps : List Property} {tail : List Char}
      (hstates : l.occurrences.Forall₂ (Occurrence.States s.forms) ps)
      (hending : l.ending = .text tail) :
      l.Yields s place ({ s with exports := record s.exports ps },
        .replaced (String.ofList (substituted l.occurrences ps ++ tail)))
  /-- The first property that cannot be taken has not its three arguments, or an object
      that is not resolved. -/
  | refused {front back : List Occurrence} {o : Occurrence}
      (hsplit : l.occurrences = front ++ o :: back)
      (hfront : ∀ q ∈ front, ∃ p, q.States s.forms p) (hrefused : ∀ p, ¬ o.States s.forms p) :
      l.Yields s place (s.report (o.complaint s.forms place), .original)
  /-- The first property that cannot be taken has a group that is not closed. It is told
      by the place in the line of its opening brace. -/
  | unclosed {before leading tail : List Char} {groups : List (List Char)}
      (hstates : ∀ q ∈ l.occurrences, ∃ p, q.States s.forms p)
      (hending : l.ending = .unclosed before leading groups tail) :
      l.Yields s place (s.report (Invocation.unclosedError .property
        ⟨utf8Size (l.occurrences.flatMap Occurrence.text ++ before ++ leading ++
          groups.flatMap braced)⟩ place), .original)

variable {forms : Dictionary} {place : Place} {offset : Nat}
  {text before found rest : List Char} {o : Occurrence} {os : List Occurrence}
  {p : Property} {ps : List Property}

/-! ## One property -/

/-- A property is no mere mention after a blank, so it occurs wherever its command does. -/
theorem occurrence?_eq_find? (text : List Char) (previous : Option Char) :
    Directive.property.occurrence? text previous = find? command text := by
  induction text generalizing previous with
  | nil => rfl
  | cons c text ih => simp [Directive.occurrence?, find?, ih, Directive.isGuarded]

theorem occurrence?_eq_some (h : IsFirst command before found) :
    Directive.property.occurrence? (before ++ found) = some (before, found) := by
  rw [occurrence?_eq_find?, find?_eq_some_iff]
  exact ⟨rfl, h⟩

theorem occurrence?_eq_none (h : ¬ command <:+: text) :
    Directive.property.occurrence? text = none := by
  rw [occurrence?_eq_find?, find?_eq_none_iff]
  exact h

/-- A text whose first property has a group that is not closed is refused. -/
theorem rewrite_of_unclosed {u : Unclosed}
    (h : Directive.property.occurrence? text = some (before, found))
    (hunclosed : Groups.split found = .error u) :
    rewrite forms place offset text = .error (Invocation.unclosedError .property
      ⟨offset + utf8Size before + utf8Size u.before⟩ place) := by
  rw [rewrite]
  split
  · next hnone => simp [h] at hnone
  · next hfound =>
    obtain ⟨rfl, rfl⟩ : _ ∧ _ := by simpa using h.symm.trans hfound
    split
    · next hsplit => rw [Except.error.inj (hunclosed.symm.trans hsplit)]
    · next hsplit => simp [hunclosed] at hsplit

/-- What is made of the first property of a text, and then of what follows it. -/
theorem rewrite_of_split {split : Split}
    (h : Directive.property.occurrence? text = some (before, found))
    (hsplit : Groups.split found = .ok split) :
    rewrite forms place offset text =
      (ofInvocation (.ofSplit .property forms place.line (offset + utf8Size before) split)
        place).bind fun p =>
          (rewrite forms place (offset + utf8Size before + utf8Size split.consumed)
            split.rest).map fun (text, ps) => (before ++ p.object.toList ++ text, p :: ps) := by
  rw [rewrite]
  split
  · next hnone => simp [h] at hnone
  · next hfound =>
    obtain ⟨rfl, rfl⟩ : _ ∧ _ := by simpa using h.symm.trans hfound
    split
    · next hunclosed => simp [hsplit] at hunclosed
    · next hsplit' =>
      obtain rfl := Except.ok.inj (hsplit.symm.trans hsplit')
      dsimp only
      rcases ofInvocation _ place with _ | _
      · rfl
      · rcases rewrite forms place _ split.rest with _ | _
        · rfl
        · rfl

namespace Occurrence

theorem StandsBefore.split_eq (h : o.StandsBefore rest) :
    Groups.split (o.own ++ rest) = .ok { leading := o.leading, groups := o.groups, rest } :=
  split_groups h.leading h.groups h.stops h.ends

theorem StandsBefore.occurrence?_eq (h : o.StandsBefore rest) :
    Directive.property.occurrence? (o.text ++ rest) = some (o.before, o.own ++ rest) := by
  rw [text, List.append_assoc]
  exact occurrence?_eq_some h.first

theorem complaint_of_three {name predicate object : String}
    (h : o.arguments forms = [name, predicate, object]) :
    o.complaint forms place = unresolvedWarning { name, predicate, object } place := by
  rw [complaint, h]

theorem complaint_of_arity (h : (o.arguments forms).length ≠ 3) (i : Invocation)
    (hdirective : i.directive = .property) (harguments : i.arguments = o.arguments forms) :
    o.complaint forms place = i.arityWarning place := by
  rw [complaint, Invocation.arityWarning, hdirective, harguments]
  split
  · next hthree => simp [hthree] at h
  · rfl

/-- An invocation that is no property is told by what is wrong with the arguments. -/
theorem ofInvocation_of_refused {i : Invocation} (h : ∀ p, ¬ o.States forms p)
    (hdirective : i.directive = .property) (harguments : i.arguments = o.arguments forms) :
    ofInvocation i place = .error (o.complaint forms place) := by
  rw [ofInvocation]
  split
  · next name predicate object hi =>
    rw [harguments] at hi
    have hobject : object = Vocabulary.unresolvedObject := by
      by_contra hne
      exact h { name, predicate, object } ⟨hi, hne⟩
    rw [if_pos hobject, complaint_of_three hi]
  · next hother =>
    rw [complaint_of_arity (fun hlength => ?_) i hdirective harguments]
    obtain ⟨name, predicate, object, hthree⟩ := List.length_eq_three.1 hlength
    exact hother name predicate object (harguments.trans hthree)

theorem StandsBefore.rewrite_of_states (h : o.StandsBefore rest) (hp : o.States forms p) :
    rewrite forms place offset (o.text ++ rest) =
      (rewrite forms place (offset + utf8Size o.text) rest).map
        fun (text, ps) => (o.before ++ p.object.toList ++ text, p :: ps) := by
  have hinvocation {line offset : Nat} : ofInvocation (.ofSplit .property forms line offset
      { leading := o.leading, groups := o.groups, rest }) place = .ok p :=
    ofInvocation_eq_ok_iff.2 hp
  rw [rewrite_of_split h.occurrence?_eq h.split_eq, hinvocation, text, utf8Size_append,
    ← Nat.add_assoc]
  rfl

theorem StandsBefore.rewrite_of_refused (h : o.StandsBefore rest)
    (hrefused : ∀ p, ¬ o.States forms p) :
    rewrite forms place offset (o.text ++ rest) = .error (o.complaint forms place) := by
  rw [rewrite_of_split h.occurrence?_eq h.split_eq, ofInvocation_of_refused hrefused rfl rfl]
  rfl

end Occurrence

/-! ## All properties -/

variable {front back : List Occurrence}

theorem areLaidOut_append : AreLaidOut (front ++ back) rest ↔
    AreLaidOut front (back.flatMap Occurrence.text ++ rest) ∧ AreLaidOut back rest := by
  induction front with
  | nil => exact (and_iff_right trivial).symm
  | cons o front ih =>
    rw [List.cons_append, AreLaidOut, AreLaidOut, ih, List.flatMap_append, List.append_assoc,
      and_assoc]

/-- Properties that can be taken are replaced one after the other, and then the text
    after them is rewritten. -/
theorem rewrite_append (place : Place) (offset : Nat) (hlaid : AreLaidOut os rest)
    (hstates : os.Forall₂ (Occurrence.States forms) ps) :
    rewrite forms place offset (os.flatMap Occurrence.text ++ rest) =
      (rewrite forms place (offset + utf8Size (os.flatMap Occurrence.text)) rest).map
        fun (text, others) => (substituted os ps ++ text, ps ++ others) := by
  induction hstates generalizing offset with
  | nil =>
    rw [List.flatMap_nil, List.nil_append, utf8Size_nil, Nat.add_zero]
    rcases rewrite forms place offset rest with _ | _
    · rfl
    · rfl
  | @cons o p os ps hp _ ih =>
    obtain ⟨ho, hos⟩ := hlaid
    rw [List.flatMap_cons, List.append_assoc, ho.rewrite_of_states hp, ih _ hos, utf8Size_append,
      ← Nat.add_assoc]
    rcases rewrite forms place _ rest with _ | ⟨text, others⟩
    · rfl
    · simp [Except.map, substituted]

theorem exists_states (h : ∀ q ∈ os, ∃ p, q.States forms p) :
    ∃ ps, os.Forall₂ (Occurrence.States forms) ps := by
  induction os with
  | nil => exact ⟨[], .nil⟩
  | cons o os ih =>
    obtain ⟨⟨p, hp⟩, hos⟩ := List.forall_mem_cons.1 h
    obtain ⟨ps, hps⟩ := ih hos
    exact ⟨p :: ps, .cons hp hps⟩

/-- If not all properties can be taken, there is a first one that cannot. -/
theorem exists_refused (h : ¬ ∀ q ∈ os, ∃ p, q.States forms p) :
    ∃ front o back, os = front ++ o :: back ∧ (∀ q ∈ front, ∃ p, q.States forms p) ∧
      ∀ p, ¬ o.States forms p := by
  induction os with
  | nil => exact absurd (by simp) h
  | cons o os ih =>
    by_cases ho : ∃ p, o.States forms p
    · obtain ⟨front, q, back, rfl, hfront, hq⟩ :=
        ih fun hos => h (List.forall_mem_cons.2 ⟨ho, hos⟩)
      exact ⟨o :: front, q, back, rfl, List.forall_mem_cons.2 ⟨ho, hfront⟩, hq⟩
    · exact ⟨[], o, os, rfl, by simp, not_exists.1 ho⟩

/-! ## The end of a line -/

/-- A text without properties stays. -/
theorem rewrite_of_none (h : Directive.property.occurrence? text = none) :
    rewrite forms place offset text = .ok (text, []) := by
  rw [rewrite]
  split
  · rfl
  · next hfound => simp [h] at hfound

namespace Ending.WellFormed

variable {leading tail : List Char} {groups : List (List Char)}

theorem occurrence?_text (h : (Ending.text tail).WellFormed) :
    Directive.property.occurrence? tail = none :=
  occurrence?_eq_none h

theorem occurrence?_unclosed (h : (unclosed before leading groups tail).WellFormed) :
    Directive.property.occurrence? (unclosed before leading groups tail).toText =
      some (before, leading ++ groups.flatMap braced ++ '\x7b' :: tail) :=
  occurrence?_eq_some h.1

theorem split_unclosed (h : (unclosed before leading groups tail).WellFormed) :
    Groups.split (leading ++ groups.flatMap braced ++ '\x7b' :: tail) =
      .error ⟨leading ++ groups.flatMap braced⟩ :=
  Form.split_text h.2

theorem rewrite_unclosed (h : (unclosed before leading groups tail).WellFormed) :
    rewrite forms place offset (unclosed before leading groups tail).toText =
      .error (Invocation.unclosedError .property
        ⟨offset + utf8Size before + utf8Size (leading ++ groups.flatMap braced)⟩ place) :=
  rewrite_of_unclosed h.occurrence?_unclosed h.split_unclosed

end Ending.WellFormed

/-! ## Layouts -/

/-- What becomes of a line is told by its layout. -/
theorem Layout.WellFormed.yields {l : Layout} (h : l.WellFormed) (s : RunState) (place : Place) :
    l.Yields s place (s.recordProperties place l.text) := by
  obtain ⟨os, ending⟩ := l
  obtain ⟨hlaid, hending⟩ := h
  dsimp only at hlaid hending
  by_cases hall : ∀ q ∈ os, ∃ p, q.States s.forms p
  · obtain ⟨ps, hps⟩ := exists_states hall
    have hrewrite := rewrite_append place 0 hlaid hps
    cases ending with
    | text tail =>
      rw [Ending.toText, rewrite_of_none hending.occurrence?_text, Except.map] at hrewrite
      rw [RunState.recordProperties, text, Ending.toText, hrewrite]
      simp only [List.append_nil]
      exact .replaced hps rfl
    | unclosed before leading groups tail =>
      rw [hending.rewrite_unclosed, Except.map] at hrewrite
      rw [RunState.recordProperties, text, hrewrite]
      have hyields : Layout.Yields ⟨os, .unclosed before leading groups tail⟩ s place _ :=
        .unclosed hall rfl
      simpa [Nat.add_assoc] using hyields
  · obtain ⟨front, o, back, rfl, hfront, hrefused⟩ := exists_refused hall
    obtain ⟨ps, hps⟩ := exists_states hfront
    obtain ⟨hlaid, ho, _⟩ := areLaidOut_append.1 hlaid
    have hrewrite := rewrite_append place 0 hlaid hps
    rw [List.flatMap_cons, List.append_assoc, ho.rewrite_of_refused hrefused,
      Except.map] at hrewrite
    rw [RunState.recordProperties, text, List.flatMap_append, List.append_assoc, List.flatMap_cons,
      List.append_assoc, hrewrite]
    exact .refused rfl hfront hrefused

/-- Every line has a layout. -/
theorem exists_layout (line : List Char) : ∃ l : Layout, l.WellFormed ∧ l.text = line := by
  cases hfound : Directive.property.occurrence? line with
  | none =>
    rw [occurrence?_eq_find?, find?_eq_none_iff] at hfound
    exact ⟨⟨[], .text line⟩, ⟨trivial, hfound⟩, rfl⟩
  | some parts =>
    obtain ⟨before, found⟩ := parts
    rw [occurrence?_eq_find?, find?_eq_some_iff] at hfound
    obtain ⟨rfl, hfirst⟩ := hfound
    obtain ⟨form, hform, rfl⟩ := Form.exists_form found
    cases form with
    | plain text =>
      -- Without groups the property takes up all that is left.
      have hstands : Occurrence.StandsBefore ⟨before, text, []⟩ [] :=
        ⟨by simpa [Occurrence.own, Form.text] using hfirst, hform, by simp, by simp, fun _ => rfl⟩
      have hcommand : command ≠ [] := by decide
      refine ⟨⟨[⟨before, text, []⟩], .text []⟩, ⟨⟨hstands, trivial⟩, ?_⟩, ?_⟩
      · rw [Ending.WellFormed, List.infix_nil]
        exact hcommand
      · simp [Layout.text, Occurrence.text, Occurrence.own, Ending.toText, Form.text]
    | closed leading groups rest =>
      obtain ⟨hleading, hne, hgroups, hrest⟩ := hform
      obtain ⟨⟨os, ending⟩, ⟨hlaid, hending⟩, rfl⟩ := exists_layout rest
      have hstands : Occurrence.StandsBefore ⟨before, leading, groups⟩ (Layout.text ⟨os, ending⟩) :=
        ⟨hfirst, hleading, hgroups, hrest, fun hnil => absurd hnil hne⟩
      refine ⟨⟨⟨before, leading, groups⟩ :: os, ending⟩, ⟨⟨hstands, hlaid⟩, hending⟩, ?_⟩
      simp [Layout.text, Occurrence.text, Occurrence.own, Form.text]
    | unclosed leading groups tail =>
      exact ⟨⟨[], .unclosed before leading groups tail⟩, ⟨trivial, hfirst, hform⟩, rfl⟩
termination_by line.length
decreasing_by
  subst_vars
  obtain ⟨g, others, rfl⟩ := List.exists_cons_of_ne_nil hne
  simp [Form.text, braced]
  omega

/-- The first property of a line is told by the line, and so is what follows it. -/
theorem Occurrence.StandsBefore.inj {o' : Occurrence} {rest' : List Char}
    (h : o.StandsBefore rest) (h' : o'.StandsBefore rest')
    (htext : o.text ++ rest = o'.text ++ rest') : o = o' ∧ rest = rest' := by
  have hfound := h.occurrence?_eq
  rw [htext, h'.occurrence?_eq] at hfound
  obtain ⟨hbefore, hown⟩ := Prod.mk.inj (Option.some.inj hfound)
  have hsplit := h.split_eq
  rw [← hown, h'.split_eq] at hsplit
  obtain ⟨hleading, hgroups, hrest⟩ := Split.mk.inj (Except.ok.inj hsplit)
  cases o
  cases o'
  rw [Occurrence.mk.injEq]
  exact ⟨⟨hbefore.symm, hleading.symm, hgroups.symm⟩, hrest.symm⟩

end Property

/-- What is put in is not looked at again, and everything else stays. -/
example : (RunState.recordProperties {} ⟨⟨"a.rdf.tex"⟩, 1⟩
    "é \\rdfproperty\x7be\x7d\x7bp\x7d\x7b\\rdfproperty\x7d \x7bü\x7d".toList).2 =
      .replaced "é \\rdfproperty \x7bü\x7d" := by
  decide +kernel

end PaperGraph
