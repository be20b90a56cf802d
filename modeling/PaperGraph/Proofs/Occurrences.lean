import PaperGraph.Proofs.Handling

/-!
# Occurrences of directives

The groups after an occurrence of a directive are its arguments, if all of them
are closed and their number is right. Most lines have one such occurrence. A
line that belongs to properties is read from left to right: a property is the
first occurrence of its directive after the groups of the property before it.
Such a line is taken as a whole, with all of its properties, unless one of them
spoils it.

* `Invocation.check_eq_ok_iff`: the invocations that pass;
* `Property.stated`: the properties of a line;
* `Property.Spoils`: what spoils a line, at whatever property: a group that is
  not closed, a wrong number of arguments, or an object that is not resolved;
* `Property.stated_of_rewrite`, `Property.spoils_of_rewrite`: a line is rewritten
  with the properties that it states, or else is spoiled.
-/

namespace PaperGraph

open Text

/-- The arguments in the groups of a text, short forms resolved. -/
def Groups.Split.arguments (s : Groups.Split) (forms : Dictionary) : List String :=
  s.groups.map fun g => String.ofList (ShortForms.resolve forms g)

@[simp]
theorem Groups.Split.length_arguments (s : Groups.Split) (forms : Dictionary) :
    (s.arguments forms).length = s.groups.length :=
  List.length_map _

@[simp]
theorem Invocation.arguments_ofSplit (d : Directive) (forms : Dictionary) (line offset : Nat)
    (s : Groups.Split) : (ofSplit d forms line offset s).arguments = s.arguments forms :=
  rfl

/-! ## Invocations -/

namespace Invocation

variable {d : Directive} {forms : Dictionary} {place : Place} {offset : Nat} {text : List Char}

theorem check_eq_ok_iff {i : Invocation} : check d forms place offset text = .ok i ↔
    ∃ split, Groups.split text = .ok split ∧ split.groups.length = d.arity ∧
      i = ofSplit d forms place.line offset split := by
  rw [check, read]
  cases hsplit : Groups.split text with
  | error u => simp
  | ok split =>
    have harity : (ofSplit d forms place.line offset split).hasArity ↔
        split.groups.length = d.arity := by
      rw [hasArity, arguments_ofSplit, Groups.Split.length_arguments, decide_eq_true_iff, ofSplit]
    by_cases h : split.groups.length = d.arity
    · simp [harity.2 h, h, eq_comm]
    · simp [mt harity.1 h, h]

/-- An invocation that does not pass has a group that is not closed, or a wrong
    number of groups, and that is told of its line. -/
theorem of_check_eq_error {complaint : Diagnostic}
    (h : check d forms place offset text = .error complaint) : complaint.place = some place ∧
      ((∃ u, Groups.split text = .error u) ∨
        ∃ split, Groups.split text = .ok split ∧ split.groups.length ≠ d.arity) := by
  have hfails (i : Invocation) : check d forms place offset text ≠ .ok i := by simp [h]
  constructor
  · rw [check] at h
    split at h
    · split at h
      · simp at h
      · obtain rfl := Except.error.inj h
        rfl
    · obtain rfl := Except.error.inj h
      rfl
  · cases hsplit : Groups.split text with
    | error u => exact .inl ⟨u, rfl⟩
    | ok split =>
      exact .inr ⟨split, rfl, fun harity =>
        hfails _ (check_eq_ok_iff.2 ⟨split, hsplit, harity, rfl⟩)⟩

end Invocation

/-! ## Properties -/

namespace Property

variable {forms : Dictionary} {place : Place} {offset : Nat} {text : List Char}

/-- The properties stated in a text from left to right, as far as they have
    their arguments. -/
def stated (forms : Dictionary) (text : List Char) : List Property :=
  match _hf : Directive.property.occurrence? text with
  | none => []
  | some (_, found) =>
    match _hs : Groups.split found with
    | .error _ => []
    | .ok split =>
      match split.arguments forms with
      | [name, predicate, object] => { name, predicate, object } :: stated forms split.rest
      | _ => []
termination_by text.length
decreasing_by
  have := Groups.length_rest_lt _hs (length_of_occurrence? _hf).2
  have := (length_of_occurrence? _hf).1
  omega

/-- Some property in a text spoils it: the first one does, or the first one can
    be taken and the text after it is spoiled. -/
inductive Spoils (forms : Dictionary) : List Char → Prop where
  /-- A group is not closed. -/
  | unclosed {text before found : List Char} {u : Groups.Unclosed}
      (hfound : Directive.property.occurrence? text = some (before, found))
      (hsplit : Groups.split found = .error u) : Spoils forms text
  /-- The number of arguments is wrong. -/
  | arity {text before found : List Char} {split : Groups.Split}
      (hfound : Directive.property.occurrence? text = some (before, found))
      (hsplit : Groups.split found = .ok split)
      (harity : split.groups.length ≠ Directive.property.arity) : Spoils forms text
  /-- The object is not resolved. -/
  | unresolved {text before found : List Char} {split : Groups.Split} {name predicate : String}
      (hfound : Directive.property.occurrence? text = some (before, found))
      (hsplit : Groups.split found = .ok split)
      (harguments : split.arguments forms = [name, predicate, Vocabulary.unresolvedObject]) :
      Spoils forms text
  /-- A later property spoils the text. -/
  | later {text before found : List Char} {split : Groups.Split} {name predicate object : String}
      (hfound : Directive.property.occurrence? text = some (before, found))
      (hsplit : Groups.split found = .ok split)
      (harguments : split.arguments forms = [name, predicate, object])
      (hobject : object ≠ Vocabulary.unresolvedObject) (hrest : Spoils forms split.rest) :
      Spoils forms text

theorem ofInvocation_eq_ok_iff {i : Invocation} {p : Property} :
    ofInvocation i place = .ok p ↔
      i.arguments = [p.name, p.predicate, p.object] ∧ p.object ≠ Vocabulary.unresolvedObject := by
  obtain ⟨pname, ppredicate, pobject⟩ := p
  rw [ofInvocation]
  split
  · next name predicate object hi =>
    rw [hi]
    split
    · next hobject => simp [hobject, eq_comm]
    · next hobject =>
      simp only [Except.ok.injEq, mk.injEq, List.cons.injEq, and_true, iff_self_and]
      rintro ⟨_, _, rfl⟩
      exact hobject
  · next hother =>
    simp only [reduceCtorEq, false_iff]
    rintro ⟨hi, _⟩
    exact hother _ _ _ hi

/-- An invocation that states no property has a wrong number of arguments, or
    an object that is not resolved, and that is told of its line. -/
theorem of_ofInvocation_eq_error {i : Invocation} {d : Diagnostic}
    (h : ofInvocation i place = .error d) : d.place = some place ∧
      (i.arguments.length ≠ Directive.property.arity ∨
        ∃ name predicate, i.arguments = [name, predicate, Vocabulary.unresolvedObject]) := by
  rw [ofInvocation] at h
  split at h
  · next name predicate object hi =>
    split at h
    · next hobject =>
      obtain rfl := Except.error.inj h
      exact ⟨rfl, .inr ⟨name, predicate, by rw [hi, hobject]⟩⟩
    · simp at h
  · next hother =>
    obtain rfl := Except.error.inj h
    refine ⟨rfl, .inl fun hlength => ?_⟩
    obtain ⟨name, predicate, object, hi⟩ := List.length_eq_three.1 hlength
    exact hother name predicate object hi

/-- A line is rewritten with the properties that it states. -/
theorem stated_of_rewrite {text' : List Char} {properties : List Property}
    (h : rewrite forms place offset text = .ok (text', properties)) :
    properties = stated forms text := by
  fun_induction rewrite forms place offset text generalizing text' properties
  case case1 text hfound =>
    obtain ⟨_, rfl⟩ := Prod.mk.inj (Except.ok.inj h)
    rw [stated, hfound]
  case case5 text before found hfound start split hsplit p hp rest others hrest ih =>
    obtain ⟨_, rfl⟩ := Prod.mk.inj (Except.ok.inj h)
    have harguments : split.arguments forms = [p.name, p.predicate, p.object] :=
      (ofInvocation_eq_ok_iff.1 hp).1
    rw [stated]
    split
    · next hnone => simp [hfound] at hnone
    · next hfound' =>
      obtain ⟨rfl, rfl⟩ : _ ∧ _ := by simpa using hfound.symm.trans hfound'
      split
      · next hunclosed => simp [hsplit] at hunclosed
      · next hsplit' =>
        obtain rfl := Except.ok.inj (hsplit.symm.trans hsplit')
        rw [harguments, ← ih hrest]
  -- Otherwise a property cannot be taken.
  all_goals simp at h

/-- What cannot be taken is told of the line. -/
theorem place_of_rewrite {d : Diagnostic} (h : rewrite forms place offset text = .error d) :
    d.place = some place := by
  fun_induction rewrite forms place offset text generalizing d
  case case1 => simp at h
  case case2 =>
    obtain rfl := Except.error.inj h
    rfl
  case case3 hd =>
    obtain rfl := Except.error.inj h
    exact (of_ofInvocation_eq_error hd).1
  case case4 hd ih =>
    obtain rfl := Except.error.inj h
    exact ih hd
  case case5 => simp at h

theorem spoils_of_rewrite {d : Diagnostic} (h : rewrite forms place offset text = .error d) :
    Spoils forms text := by
  fun_induction rewrite forms place offset text generalizing d
  case case1 => simp at h
  case case2 hfound start u hsplit => exact .unclosed hfound hsplit
  case case3 hfound start split hsplit d hd =>
    rcases (of_ofInvocation_eq_error hd).2 with harity | ⟨name, predicate, harguments⟩
    · rw [Invocation.arguments_ofSplit, Groups.Split.length_arguments] at harity
      exact .arity hfound hsplit harity
    · exact .unresolved hfound hsplit harguments
  case case4 hfound start split hsplit p hp d hd ih =>
    obtain ⟨harguments, hobject⟩ := ofInvocation_eq_ok_iff.1 hp
    exact .later hfound hsplit harguments hobject (ih hd)
  case case5 => simp at h

/-- A text whose first property has its groups is spoiled by that property or by
    a later one. -/
theorem Spoils.of_found {before found : List Char} {split : Groups.Split} (h : Spoils forms text)
    (hfound : Directive.property.occurrence? text = some (before, found))
    (hsplit : Groups.split found = .ok split) :
    split.groups.length ≠ Directive.property.arity ∨
      (∃ name predicate, split.arguments forms = [name, predicate, Vocabulary.unresolvedObject]) ∨
        Spoils forms split.rest := by
  cases h with
  | unclosed hfound' hunclosed =>
    obtain ⟨rfl, rfl⟩ : _ ∧ _ := by simpa using hfound.symm.trans hfound'
    simp [hsplit] at hunclosed
  | arity hfound' hsplit' harity =>
    obtain ⟨rfl, rfl⟩ : _ ∧ _ := by simpa using hfound.symm.trans hfound'
    obtain rfl := Except.ok.inj (hsplit.symm.trans hsplit')
    exact .inl harity
  | unresolved hfound' hsplit' harguments =>
    obtain ⟨rfl, rfl⟩ : _ ∧ _ := by simpa using hfound.symm.trans hfound'
    obtain rfl := Except.ok.inj (hsplit.symm.trans hsplit')
    exact .inr (.inl ⟨_, _, harguments⟩)
  | later hfound' hsplit' _ _ hrest =>
    obtain ⟨rfl, rfl⟩ : _ ∧ _ := by simpa using hfound.symm.trans hfound'
    obtain rfl := Except.ok.inj (hsplit.symm.trans hsplit')
    exact .inr (.inr hrest)

theorem Spoils.exists_occurrence (h : Spoils forms text) :
    ∃ split, Directive.property.occurrence? text = some split := by
  cases h with
  | unclosed hfound => exact ⟨_, hfound⟩
  | arity hfound => exact ⟨_, hfound⟩
  | unresolved hfound => exact ⟨_, hfound⟩
  | later hfound => exact ⟨_, hfound⟩

theorem not_spoils_of_rewrite {text' : List Char} {properties : List Property}
    (h : rewrite forms place offset text = .ok (text', properties)) : ¬ Spoils forms text := by
  fun_induction rewrite forms place offset text generalizing text' properties
  case case1 hnone =>
    intro hspoils
    obtain ⟨_, hsome⟩ := hspoils.exists_occurrence
    simp [hnone] at hsome
  case case5 text before found hfound start split hsplit p hp rest others hrest ih =>
    obtain ⟨harguments, hobject⟩ : split.arguments forms = [p.name, p.predicate, p.object] ∧ _ :=
      ofInvocation_eq_ok_iff.1 hp
    intro hspoils
    rcases hspoils.of_found hfound hsplit with harity | ⟨name, predicate, hunresolved⟩ | hlater
    · rw [← Groups.Split.length_arguments _ forms, harguments] at harity
      exact harity rfl
    · rw [harguments] at hunresolved
      obtain ⟨_, _, heq⟩ : _ ∧ _ ∧ _ := by simpa using hunresolved
      exact hobject heq
    · exact ih hrest hlater
  all_goals simp at h

end Property

end PaperGraph
