import PaperGraph.Proofs.Cutting
import PaperGraph.Proofs.Occurrences
import PaperGraph.Proofs.Scanning

/-!
# What a line changes

A line changes the one part of the state that its directive is about, or
nothing at all but for the diagnostic that says why. That includes a line that
ends the run: here the handling of a line is *work* on a state, which leaves a
state behind however it ends.

* `Handling.handle`: a line is handled, step by step, on a state;
* `Handling.on_handle`: this is `RunState.handle`, and a failure leaves the state
  that it found;
* `Mishap`: what a line cannot be taken for, of which the author is told;
* `Malformed`: what ends the run;
* `RunState.confined_handle`: the part of the state that a line may change,
  and when it changes nothing.
-/

namespace PaperGraph

open Text

/-! ## Handling as work on a state -/

/-- Work on the state of a run. The state is what it has left, also if it fails. -/
abbrev Handling := ExceptT Failure (StateM RunState)

namespace Handling

variable {α : Type} {s : RunState} {place : Place} {before found line : List Char}

/-- What the work comes to on a state, and the state that it leaves. -/
def on (work : Handling α) (s : RunState) : Except Failure α × RunState :=
  work.run.run s

/-- Tells the author something. -/
def report (d : Diagnostic) : Handling Unit :=
  modify (·.report d)

/-- The invocation at the start of a text. The author is told if there is none
    that can be used. -/
def check (d : Directive) (place : Place) (offset : Nat) (text : List Char) :
    Handling (Option Invocation) := do
  match Invocation.check d (← get).forms place offset text with
  | .ok i => return some i
  | .error complaint => do
    report complaint
    return none

/-- Declares a short form. -/
def declareForm (place : Place) (before found : List Char) : Handling LineOutput := do
  match ← check .shortForm place (utf8Size before) found with
  | some { arguments := [token, expansion], .. } => do
    modify fun s => { s with forms := s.forms.insert token expansion }
    return .dropped
  | _ => return .dropped

/-- Imports a contribution. -/
def importContent (answer : Request → Answer) (place : Place) (before found : List Char) :
    Handling LineOutput := do
  match ← check .importing place (utf8Size before) found with
  | some { arguments := [label, key, iri, store], .. } =>
    match answer { iri, label, key, store } with
    | .ok resolution => do
      modify fun s => { s with imported := resolution.kind.adjoin s.imported }
      return .replaced (resolution.snippet ++ String.ofList (lineEnding found))
    | .error fault => do
      report (RunState.unresolvedWarning iri fault place)
      return .dropped
  | _ => return .original

/-- Records an export. -/
def recordExport (place : Place) (before found : List Char) : Handling LineOutput := do
  match ← check .exporting place (utf8Size before) found with
  | some { arguments := [name, kind, list], .. } =>
    match Pairs.parse list.toList with
    | .ok pairs => do
      modify fun s => { s with exports := s.exports.append name ((Vocabulary.type, kind) :: pairs) }
      return .dropped
    | .error item => throw (.malformedPair place.path place.line item)
  | _ => return .original

/-- Records the properties of a line, one after the other, when all of them
    can be taken. -/
def recordProperties (place : Place) (line : List Char) : Handling LineOutput := do
  match Property.rewrite (← get).forms place 0 line with
  | .ok (text, properties) => do
    properties.forM fun p =>
      modify fun s => { s with exports := s.exports.append p.name [(p.predicate, p.object)] }
    return .replaced (String.ofList text)
  | .error complaint => do
    report complaint
    return .original

/-- Does what the directive of a line asks for. -/
def handle (answer : Request → Answer) (place : Place) (line : List Char) : Handling LineOutput :=
  match Directive.classify line with
  | none => return .original
  | some (.shortForm, before, found) => declareForm place before found
  | some (.importing, before, found) => importContent answer place before found
  | some (.exporting, before, found) => recordExport place before found
  | some (.property, _) => recordProperties place line

theorem on_bind {β : Type} (work : Handling α) (next : α → Handling β) (s : RunState) :
    on (work >>= next) s = match work.on s with
      | (.ok a, s₁) => (next a).on s₁
      | (.error f, s₁) => (.error f, s₁) := by
  rw [on, ExceptT.run_bind, StateT.run_bind, on]
  generalize StateT.run (ExceptT.run work) s = outcome
  obtain ⟨f | a, s₁⟩ : Except Failure α × RunState := outcome
  · rfl
  · rfl

theorem on_bind_get (next : RunState → Handling α) (s : RunState) :
    on (get >>= next) s = (next s).on s :=
  rfl

theorem on_check (d : Directive) (offset : Nat) (text : List Char) :
    on (check d place offset text) s = match Invocation.check d s.forms place offset text with
      | .ok i => (.ok (some i), s)
      | .error complaint => (.ok none, s.report complaint) := by
  rw [check, on_bind_get]
  cases Invocation.check d s.forms place offset text with
  | ok i => rfl
  | error complaint => rfl

theorem on_check_bind (d : Directive) (offset : Nat) (text : List Char)
    (next : Option Invocation → Handling α) : on (check d place offset text >>= next) s =
      match Invocation.check d s.forms place offset text with
      | .ok i => (next (some i)).on s
      | .error complaint => (next none).on (s.report complaint) := by
  rw [on_bind, on_check]
  cases Invocation.check d s.forms place offset text with
  | ok i => rfl
  | error complaint => rfl

theorem on_declareForm : (declareForm place before found).on s =
    (.ok (s.declareForm place before found).2, (s.declareForm place before found).1) := by
  rw [declareForm, on_check_bind, RunState.declareForm]
  cases Invocation.check .shortForm s.forms place (utf8Size before) found with
  | error complaint => rfl
  | ok i =>
    obtain ⟨d, arguments, number, offset⟩ := i
    rcases arguments with _ | ⟨token, _ | ⟨expansion, _ | ⟨_, _⟩⟩⟩
    · rfl
    · rfl
    · rfl
    · rfl

theorem on_importContent (answer : Request → Answer) :
    (importContent answer place before found).on s =
      (.ok (s.importContent answer place before found).2,
        (s.importContent answer place before found).1) := by
  rw [importContent, on_check_bind, RunState.importContent]
  cases Invocation.check .importing s.forms place (utf8Size before) found with
  | error complaint => rfl
  | ok i =>
    obtain ⟨d, arguments, number, offset⟩ := i
    rcases arguments with _ | ⟨label, _ | ⟨key, _ | ⟨iri, _ | ⟨store, _ | ⟨_, _⟩⟩⟩⟩⟩
    · rfl
    · rfl
    · rfl
    · rfl
    · dsimp only
      cases answer { iri, label, key, store } with
      | ok resolution => rfl
      | error fault => rfl
    · rfl

theorem on_recordExport : (recordExport place before found).on s =
    match s.recordExport place before found with
    | .ok (s', output) => (.ok output, s')
    | .error f => (.error f, s) := by
  rw [recordExport, on_check_bind, RunState.recordExport]
  cases Invocation.check .exporting s.forms place (utf8Size before) found with
  | error complaint => rfl
  | ok i =>
    obtain ⟨d, arguments, number, offset⟩ := i
    rcases arguments with _ | ⟨name, _ | ⟨kind, _ | ⟨list, _ | ⟨_, _⟩⟩⟩⟩
    · rfl
    · rfl
    · rfl
    · dsimp only
      cases Pairs.parse list.toList with
      | ok pairs => rfl
      | error item => rfl
    · rfl

theorem on_forM_record (properties : List Property) (s : RunState) :
    on (properties.forM fun p => modify fun s =>
      { s with exports := s.exports.append p.name [(p.predicate, p.object)] }) s =
    (.ok (), { s with exports :=
      properties.foldl (fun e p => e.append p.name [(p.predicate, p.object)]) s.exports }) := by
  induction properties generalizing s with
  | nil => rfl
  | cons p properties ih => exact ih _

theorem on_recordProperties : (recordProperties place line).on s =
    (.ok (s.recordProperties place line).2, (s.recordProperties place line).1) := by
  rw [recordProperties, RunState.recordProperties, on_bind_get]
  cases Property.rewrite s.forms place 0 line with
  | error complaint => rfl
  | ok rewritten =>
    obtain ⟨text, properties⟩ := rewritten
    dsimp only
    rw [on_bind, on_forM_record]
    rfl

/-- Step by step a line does what it does in one, and what it fails with leaves
    the state as it was. -/
theorem on_handle (answer : Request → Answer) (s : RunState) (place : Place) (line : List Char) :
    (handle answer place line).on s = match s.handle answer place line with
      | .ok (s', output) => (.ok output, s')
      | .error f => (.error f, s) := by
  rw [handle, RunState.handle]
  rcases Directive.classify line with _ | ⟨_ | _ | _ | _, before, found⟩
  · rfl
  · exact on_declareForm
  · exact on_importContent answer
  · exact on_recordExport
  · exact on_recordProperties

end Handling

/-! ## What can be wrong with a line -/

/-- A line cannot be taken for what it is meant, and the run goes on. -/
inductive Mishap (answer : Request → Answer) (forms : Dictionary) (line : List Char) : Prop where
  /-- A group of its directive is not closed. -/
  | unclosed {d : Directive} {before found : List Char} {u : Groups.Unclosed}
      (hline : Directive.classify line = some (d, before, found)) (hd : d ≠ .property)
      (hsplit : Groups.split found = .error u) : Mishap answer forms line
  /-- Its directive has a wrong number of arguments. -/
  | arity {d : Directive} {before found : List Char} {split : Groups.Split}
      (hline : Directive.classify line = some (d, before, found)) (hd : d ≠ .property)
      (hsplit : Groups.split found = .ok split) (harity : split.groups.length ≠ d.arity) :
      Mishap answer forms line
  /-- The store does not give what it imports, for whatever reason. -/
  | unresolved {before found : List Char} {split : Groups.Split} {label key iri store : String}
      {fault : ResolveFault} (hline : Directive.classify line = some (.importing, before, found))
      (hsplit : Groups.split found = .ok split)
      (harguments : split.arguments forms = [label, key, iri, store])
      (hanswer : answer { iri, label, key, store } = .error fault) : Mishap answer forms line
  /-- One of its properties cannot be taken. -/
  | spoiled {before found : List Char}
      (hline : Directive.classify line = some (.property, before, found))
      (hspoils : Property.Spoils forms line) : Mishap answer forms line

/-- A line is an export in whose list of pairs `item` is the first one without
    an equality sign. -/
structure Malformed (forms : Dictionary) (line item : List Char) : Prop where
  /-- The line is an export with all its arguments; `front` and `back` are the
      other items of its list. -/
  exists_arguments : ∃ before found split name kind list front back,
    Directive.classify line = some (.exporting, before, found) ∧
    Groups.split found = .ok split ∧ split.arguments forms = [name, kind, list] ∧
    Pairs.items list.toList = front ++ item :: back ∧ ∀ other ∈ front, '=' ∈ other
  /-- It has no equality sign. -/
  not_mem : '=' ∉ item

theorem Pairs.readItem_eq_error_iff {item : List Char} {text : String} :
    readItem item = .error text ↔ '=' ∉ item ∧ text = String.ofList item := by
  rw [readItem, ← cutAt?_eq_none_iff]
  split
  · next hcut => simp [hcut]
  · next hcut => simp [hcut, eq_comm]

theorem Pairs.exists_readItem_eq_ok_iff {item : List Char} :
    (∃ pair, readItem item = .ok pair) ↔ '=' ∈ item := by
  rw [← not_iff_not, ← cutAt?_eq_none_iff, readItem]
  split
  · next hcut => simp [hcut]
  · next hcut => simp [hcut]

variable {answer : Request → Answer} {forms : Dictionary} {s s' : RunState} {place : Place}
  {line before found : List Char} {d : Directive} {output : LineOutput}

/-- A directive other than a property that passes meets with a mishap only in
    the store. -/
theorem Mishap.of_check {i : Invocation} (h : Mishap answer forms line)
    (hline : Directive.classify line = some (d, before, found))
    (hcheck : Invocation.check d forms place (utf8Size before) found = .ok i)
    (hd : d ≠ .property) : d = .importing ∧ ∃ label key iri store fault,
      i.arguments = [label, key, iri, store] ∧
        answer { iri, label, key, store } = .error fault := by
  obtain ⟨split, hsplit, harity, rfl⟩ := Invocation.check_eq_ok_iff.1 hcheck
  cases h with
  | unclosed hline' _ hunclosed =>
    obtain ⟨rfl, rfl, rfl⟩ : _ ∧ _ ∧ _ := by simpa using hline.symm.trans hline'
    simp [hsplit] at hunclosed
  | arity hline' _ hsplit' hwrong =>
    obtain ⟨rfl, rfl, rfl⟩ : _ ∧ _ ∧ _ := by simpa using hline.symm.trans hline'
    obtain rfl := Except.ok.inj (hsplit.symm.trans hsplit')
    exact absurd harity hwrong
  | unresolved hline' hsplit' harguments hanswer =>
    obtain ⟨rfl, rfl, rfl⟩ : _ ∧ _ ∧ _ := by simpa using hline.symm.trans hline'
    obtain rfl := Except.ok.inj (hsplit.symm.trans hsplit')
    exact ⟨rfl, _, _, _, _, _, harguments, hanswer⟩
  | spoiled hline' =>
    obtain ⟨rfl, rfl, rfl⟩ : _ ∧ _ ∧ _ := by simpa using hline.symm.trans hline'
    exact absurd rfl hd

theorem Mishap.exists_classify (h : Mishap answer forms line) :
    ∃ split, Directive.classify line = some split := by
  cases h with
  | unclosed hline => exact ⟨_, hline⟩
  | arity hline => exact ⟨_, hline⟩
  | unresolved hline => exact ⟨_, hline⟩
  | spoiled hline => exact ⟨_, hline⟩

theorem Mishap.spoils (h : Mishap answer forms line)
    (hline : Directive.classify line = some (.property, before, found)) :
    Property.Spoils forms line := by
  cases h with
  | unclosed hline' hd =>
    obtain ⟨rfl, _⟩ : _ ∧ _ := by simpa using hline.symm.trans hline'
    exact absurd rfl hd
  | arity hline' hd =>
    obtain ⟨rfl, _⟩ : _ ∧ _ := by simpa using hline.symm.trans hline'
    exact absurd rfl hd
  | unresolved hline' => simp [hline] at hline'
  | spoiled _ hspoils => exact hspoils

/-- An export with a malformed item has its arguments, and its list is not
    read to its end. -/
theorem Malformed.exists_check {item : List Char} (h : Malformed forms line item) (place : Place) :
    ∃ before found i name kind list, Directive.classify line = some (.exporting, before, found) ∧
      Invocation.check .exporting forms place (utf8Size before) found = .ok i ∧
      i.arguments = [name, kind, list] ∧
      Pairs.parse list.toList = .error (String.ofList item) := by
  obtain ⟨⟨before, found, split, name, kind, list, front, back, hline, hsplit, harguments, hitems,
    hfront⟩, hequality⟩ := h
  have harity : split.groups.length = Directive.exporting.arity := by
    rw [← Groups.Split.length_arguments _ forms, harguments]
    rfl
  refine ⟨before, found, _, name, kind, list, hline,
    Invocation.check_eq_ok_iff.2 ⟨split, hsplit, harity, rfl⟩, harguments, ?_⟩
  rw [Pairs.parse, hitems]
  exact mapM_eq_error (fun other hother => Pairs.exists_readItem_eq_ok_iff.2 (hfront other hother))
    (Pairs.readItem_eq_error_iff.2 ⟨hequality, rfl⟩)

theorem Malformed.not_mishap {item : List Char} (h : Malformed forms line item) :
    ¬ Mishap answer forms line := by
  intro hmishap
  -- Where the line stands has no part in whether it passes.
  obtain ⟨_, _, _, _, _, _, hline, hcheck, _⟩ := h.exists_check { path := ⟨""⟩, line := 0 }
  obtain ⟨hother, _⟩ := hmishap.of_check hline hcheck (by decide)
  simp at hother

namespace RunState

/-- A line that is handled meets with a mishap, of which the author is told and
    which changes nothing else, or the author is told nothing. -/
theorem Handled.mishap (h : Handled answer s place line s' output) :
    (Mishap answer s.forms line ∧ ∃ d, d.place = some place ∧ s' = s.report d) ∨
      (¬ Mishap answer s.forms line ∧ s'.diagnostics = s.diagnostics) := by
  cases h with
  | plain hline =>
    refine .inr ⟨fun hmishap => ?_, rfl⟩
    obtain ⟨_, hsome⟩ := hmishap.exists_classify
    simp [hline] at hsome
  | refused hline hd hcheck =>
    obtain ⟨hplace, ⟨u, hsplit⟩ | ⟨split, hsplit, harity⟩⟩ := Invocation.of_check_eq_error hcheck
    · exact .inl ⟨.unclosed hline hd hsplit, _, hplace, rfl⟩
    · exact .inl ⟨.arity hline hd hsplit harity, _, hplace, rfl⟩
  | declared hline hcheck hi =>
    refine .inr ⟨fun hmishap => ?_, rfl⟩
    obtain ⟨hother, _⟩ := hmishap.of_check hline hcheck (by decide)
    simp at hother
  | imported hline hcheck hi hanswer =>
    refine .inr ⟨fun hmishap => ?_, rfl⟩
    obtain ⟨_, label, key, iri, store, fault, hi', hfault⟩ :=
      hmishap.of_check hline hcheck (by decide)
    obtain ⟨rfl, rfl, rfl, rfl⟩ : _ ∧ _ ∧ _ ∧ _ := by simpa using hi.symm.trans hi'
    simp [hanswer] at hfault
  | unresolved hline hcheck hi hanswer =>
    obtain ⟨split, hsplit, _, rfl⟩ := Invocation.check_eq_ok_iff.1 hcheck
    exact .inl ⟨.unresolved hline hsplit hi hanswer, _, rfl, rfl⟩
  | recorded hline hcheck hi hpairs =>
    refine .inr ⟨fun hmishap => ?_, rfl⟩
    obtain ⟨hother, _⟩ := hmishap.of_check hline hcheck (by decide)
    simp at hother
  | kept hline hrewrite =>
    exact .inl ⟨.spoiled hline (Property.spoils_of_rewrite hrewrite), _,
      Property.place_of_rewrite hrewrite, rfl⟩
  | stated hline hrewrite =>
    exact .inr ⟨fun hmishap => Property.not_spoils_of_rewrite hrewrite (hmishap.spoils hline), rfl⟩

theorem recordExport_of_malformed {i : Invocation} {name kind list item : String}
    (hcheck : Invocation.check .exporting s.forms place (utf8Size before) found = .ok i)
    (hi : i.arguments = [name, kind, list]) (hparse : Pairs.parse list.toList = .error item) :
    s.recordExport place before found = .error (.malformedPair place.path place.line item) := by
  obtain ⟨_, arguments, _, _⟩ := i
  obtain rfl : arguments = [name, kind, list] := hi
  simp only [recordExport, hcheck, hparse]

/-- An export fails if its list of pairs is not read to its end, and not otherwise. -/
theorem recordExport_eq_error_iff {f : Failure} : s.recordExport place before found = .error f ↔
    ∃ i name kind list item,
      Invocation.check .exporting s.forms place (utf8Size before) found = .ok i ∧
      i.arguments = [name, kind, list] ∧ Pairs.parse list.toList = .error item ∧
      f = .malformedPair place.path place.line item := by
  constructor
  · intro h
    rw [recordExport] at h
    split at h
    · simp at h
    · next d name kind list number offset hcheck =>
      split at h
      · simp at h
      · next item hparse =>
        exact ⟨_, name, kind, list, item, hcheck, rfl, hparse, (Except.error.inj h).symm⟩
    · simp at h
  · rintro ⟨i, name, kind, list, item, hcheck, hi, hparse, rfl⟩
    exact recordExport_of_malformed hcheck hi hparse

/-- A line ends the run if it is an export with a malformed item, and not
    otherwise. -/
theorem handle_eq_error_iff {f : Failure} : s.handle answer place line = .error f ↔
    ∃ item, Malformed s.forms line item ∧
      f = .malformedPair place.path place.line (String.ofList item) := by
  constructor
  · intro h
    rw [handle] at h
    split at h
    · simp at h
    · simp at h
    · simp at h
    · next before found hline =>
      obtain ⟨i, name, kind, list, text, hcheck, hi, hparse, rfl⟩ :=
        recordExport_eq_error_iff.1 h
      obtain ⟨split, hsplit, _, rfl⟩ := Invocation.check_eq_ok_iff.1 hcheck
      obtain ⟨front, item, back, hitems, hfront, hitem⟩ := exists_of_mapM_eq_error hparse
      obtain ⟨hequality, rfl⟩ := Pairs.readItem_eq_error_iff.1 hitem
      exact ⟨item,
        ⟨⟨before, found, split, name, kind, list, front, back, hline, hsplit, hi, hitems,
          fun other hother => Pairs.exists_readItem_eq_ok_iff.1 (hfront other hother)⟩,
          hequality⟩, rfl⟩
    · simp at h
  · rintro ⟨item, hmalformed, rfl⟩
    obtain ⟨before, found, i, name, kind, list, hline, hcheck, hi, hparse⟩ :=
      hmalformed.exists_check place
    rw [handle, hline]
    exact recordExport_of_malformed hcheck hi hparse

theorem Handled.forms_eq (h : Handled answer s place line s' output)
    (hline : (Directive.classify line).map Prod.fst ≠ some .shortForm) : s'.forms = s.forms := by
  cases h with
  | declared hline' => exact absurd (by rw [hline']; rfl) hline
  | _ => rfl

theorem Handled.imported_eq (h : Handled answer s place line s' output)
    (hline : (Directive.classify line).map Prod.fst ≠ some .importing) :
    s'.imported = s.imported := by
  cases h with
  | imported hline' => exact absurd (by rw [hline']; rfl) hline
  | _ => rfl

theorem Handled.exports_eq_of_ne (h : Handled answer s place line s' output)
    (hexporting : (Directive.classify line).map Prod.fst ≠ some .exporting)
    (hproperty : (Directive.classify line).map Prod.fst ≠ some .property) :
    s'.exports = s.exports := by
  cases h with
  | recorded hline' => exact absurd (by rw [hline']; rfl) hexporting
  | stated hline' => exact absurd (by rw [hline']; rfl) hproperty
  | _ => rfl

/-- What the handling of a line in a state `s` keeps to: `outcome` is what becomes
    of the line, or of the run, and `s'` the state that it leaves. -/
structure Confined (answer : Request → Answer) (s : RunState) (place : Place)
    (line : List Char) (outcome : Except Failure LineOutput) (s' : RunState) : Prop where
  /-- This is what the run goes on with, or what it fails with. -/
  handled : s.handle answer place line = outcome.map fun output => (s', output)
  /-- The outputs of the papers stay as they are. -/
  buffers : s'.buffers = s.buffers
  /-- What the author was told stays, and one thing more is told at most, of
      this line. -/
  diagnostics : s'.diagnostics = s.diagnostics ∨
    ∃ d, d.place = some place ∧ s'.diagnostics = s.diagnostics ++ [d]
  /-- Only the declaration of a short form changes the short forms. -/
  forms : (Directive.classify line).map Prod.fst ≠ some .shortForm → s'.forms = s.forms
  /-- Only an import changes the kinds imported. -/
  imported : (Directive.classify line).map Prod.fst ≠ some .importing → s'.imported = s.imported
  /-- Only an export and a line that belongs to properties change the exports. -/
  exports : (Directive.classify line).map Prod.fst ≠ some .exporting →
    (Directive.classify line).map Prod.fst ≠ some .property → s'.exports = s.exports
  /-- After a mishap the run goes on from the same state, of which one thing
      more was told. -/
  mishap : Mishap answer s.forms line →
    ∃ d output, d.place = some place ∧ outcome = .ok output ∧ s' = s.report d
  /-- A malformed item ends the run, in the same state. -/
  malformed : ∀ item, Malformed s.forms line item →
    outcome = .error (.malformedPair place.path place.line (String.ofList item)) ∧ s' = s
  /-- Otherwise the run goes on, and nothing is told. -/
  regular : ¬ Mishap answer s.forms line → (∀ item, ¬ Malformed s.forms line item) →
    (∃ output, outcome = .ok output) ∧ s'.diagnostics = s.diagnostics

/-- Whatever the store answers, a line keeps to its part of the state, and
    changes nothing if it cannot be taken. -/
theorem confined_handle (answer : Request → Answer) (s : RunState) (place : Place)
    (line : List Char) : Confined answer s place line ((Handling.handle answer place line).on s).1
      ((Handling.handle answer place line).on s).2 := by
  rw [Handling.on_handle]
  cases h : s.handle answer place line with
  | error f =>
    obtain ⟨item, hitem, rfl⟩ := handle_eq_error_iff.1 h
    exact
      { handled := h
        buffers := rfl
        diagnostics := .inl rfl
        forms := fun _ => rfl
        imported := fun _ => rfl
        exports := fun _ _ => rfl
        mishap := fun hmishap => absurd hmishap hitem.not_mishap
        malformed := fun other hother =>
          have hsame := h.symm.trans (handle_eq_error_iff.2 ⟨other, hother, rfl⟩)
          ⟨congrArg Except.error (Except.error.inj hsame), rfl⟩
        regular := fun _ hnone => absurd hitem (hnone item) }
  | ok r =>
    obtain ⟨s', output⟩ := r
    have hhandled := handled_of_handle h
    have hgoes (item : List Char) : ¬ Malformed s.forms line item := fun hitem => by
      simp [handle_eq_error_iff.2 ⟨item, hitem, rfl⟩] at h
    refine
      { handled := h
        buffers := buffers_handle h
        diagnostics := ?_
        forms := hhandled.forms_eq
        imported := hhandled.imported_eq
        exports := hhandled.exports_eq_of_ne
        mishap := fun hmishap => ?_
        malformed := fun item hitem => absurd hitem (hgoes item)
        regular := fun hregular _ => ⟨⟨output, rfl⟩, ?_⟩ }
    · rcases hhandled.mishap with ⟨_, d, hd, hs'⟩ | ⟨_, htold⟩
      · exact .inr ⟨d, hd, by rw [hs', diagnostics_report]⟩
      · exact .inl htold
    · rcases hhandled.mishap with ⟨_, d, hd, hs'⟩ | ⟨hnone, _⟩
      · exact ⟨d, output, hd, rfl, hs'⟩
      · exact absurd hmishap hnone
    · rcases hhandled.mishap with ⟨hsome, _⟩ | ⟨_, htold⟩
      · exact absurd hsome hregular
      · exact htold

end RunState

end PaperGraph
