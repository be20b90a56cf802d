import PaperGraph.Directive.Invocation
import PaperGraph.Export.Pairs
import PaperGraph.Failure
import PaperGraph.Run.Basic
import PaperGraph.Store.Basic
import PaperGraph.Text.Lines

/-!
# Handling of directives

Every directive does two things: it changes the state of the run and it decides
what becomes of its line. An invocation that cannot be read, or has a wrong
number of arguments, changes nothing and is told to the author.

* `RunState.declareForm`: a short form; the line is left out;
* `RunState.importContent`: the line is replaced by the snippet, or left out when the
  store has none;
* `RunState.recordExport`: the pairs are recorded and the line is left out;
* `RunState.recordProperties`: the properties of a line are recorded and each is replaced
  by its object; the line is taken as a whole or not at all.
-/

namespace PaperGraph

open Text

/-- The start of the code of diagnostics about a directive. -/
def Directive.code (d : Directive) (problem : String) : String :=
  "rdftex::" ++ d.label ++ "::" ++ problem

namespace Invocation

/-- The warning that an invocation has a wrong number of arguments. -/
def arityWarning (i : Invocation) (place : Place) : Diagnostic where
  severity := .warning
  code := i.directive.code "arity"
  message := i.directive.command ++ " expects " ++ toString i.directive.arity ++
    " arguments, found " ++ toString i.arguments.length
  place := some place

/-- The complaint that an argument is not closed. -/
def unclosedError (d : Directive) (u : Unbalanced) (place : Place) : Diagnostic where
  severity := .error
  code := d.code "unbalanced"
  message := d.command ++ " has an unclosed argument starting at column " ++
    toString (u.offset + 1)
  help := some "Close every `\x7b` of the directive on the same line"
  place := some place

/-- The invocation at the start of a text, or what is wrong with it. -/
def check (d : Directive) (forms : Dictionary) (place : Place) (offset : Nat)
    (text : List Char) : Except Diagnostic Invocation :=
  match read d forms place.line offset text with
  | .ok i => if i.hasArity then .ok i else .error (i.arityWarning place)
  | .error u => .error (unclosedError d u place)

end Invocation

namespace RunState

/-- Declares a short form. `before` is the part of the line before the
    directive and `found` the rest. -/
def declareForm (s : RunState) (place : Place) (before found : List Char) : RunState × LineOutput :=
  match Invocation.check .shortForm s.forms place (utf8Size before) found with
  | .error d => (s.report d, .dropped)
  | .ok { arguments := [token, expansion], .. } =>
    ({ s with forms := s.forms.insert token expansion }, .dropped)
  | .ok _ => (s, .dropped)

/-- The warning that a contribution is not imported. -/
def unresolvedWarning (iri : String) (fault : ResolveFault) (place : Place) : Diagnostic where
  severity := .warning
  code := Directive.importing.code "unresolved"
  message := "Import of " ++ iri ++ " is skipped: " ++ fault.message
  place := some place

/-- Imports a contribution, for which `ask` asks a store. -/
def importContent (ask : Request → Answer) (s : RunState) (place : Place)
    (before found : List Char) : RunState × LineOutput :=
  match Invocation.check .importing s.forms place (utf8Size before) found with
  | .error d => (s.report d, .original)
  | .ok { arguments := [label, key, iri, store], .. } =>
    match ask { iri, label, key, store } with
    | .ok resolution =>
      ({ s with imported := resolution.kind.adjoin s.imported },
        .replaced (resolution.snippet ++ String.ofList (lineEnding found)))
    | .error fault => (s.report (unresolvedWarning iri fault place), .dropped)
  | .ok _ => (s, .original)

/-- Records an export. A malformed list of pairs ends the run. -/
def recordExport (s : RunState) (place : Place) (before found : List Char) :
    Except Failure (RunState × LineOutput) :=
  match Invocation.check .exporting s.forms place (utf8Size before) found with
  | .error d => .ok (s.report d, .original)
  | .ok { arguments := [name, kind, list], .. } =>
    match Pairs.parse list.toList with
    | .ok pairs =>
      .ok ({ s with exports := s.exports.append name ((Vocabulary.type, kind) :: pairs) },
        .dropped)
    | .error item => .error (.malformedPair place.path place.line item)
  | .ok _ => .ok (s, .original)

end RunState

/-- A property stated in running text. -/
structure Property where
  /-- The name of the export. -/
  name : String
  /-- The predicate. -/
  predicate : String
  /-- The object. -/
  object : String
deriving DecidableEq, Repr

namespace Property

/-- The warning that a property has no object yet. -/
def unresolvedWarning (p : Property) (place : Place) : Diagnostic where
  severity := .warning
  code := Directive.property.code "unresolved-object"
  message := "Property " ++ Vocabulary.compact p.predicate ++ " of export " ++ p.name ++
    " has no resolved object; line kept verbatim"
  place := some place

/-- The property that an invocation states, or what is wrong with it. -/
def ofInvocation (i : Invocation) (place : Place) : Except Diagnostic Property :=
  match i.arguments with
  | [name, predicate, object] =>
    let p : Property := { name, predicate, object }
    if object = Vocabulary.unresolvedObject then .error (p.unresolvedWarning place) else .ok p
  | _ => .error (i.arityWarning place)

theorem length_of_occurrence? {d : Directive} {text before found : List Char}
    {previous : Option Char} (h : d.occurrence? text previous = some (before, found)) :
    before.length + found.length = text.length ∧ found ≠ [] := by
  induction text generalizing previous before found with
  | nil => simp [Directive.occurrence?] at h
  | cons c text ih =>
    simp only [Directive.occurrence?] at h
    split at h
    · simp only [Option.some.injEq, Prod.mk.injEq] at h
      obtain ⟨rfl, rfl⟩ := h
      simp
    · obtain ⟨⟨b, f⟩, hb, he⟩ := Option.map_eq_some_iff.1 h
      simp only [Prod.mk.injEq] at he
      obtain ⟨rfl, rfl⟩ := he
      have := ih hb
      simp only [List.length_cons]
      exact ⟨by omega, this.2⟩

/-- The text with every property replaced by its object, and the properties; or
    what is wrong with the first one that cannot be taken. `offset` is the
    place of the text in its line. What was put in is not looked at again. -/
def rewrite (forms : Dictionary) (place : Place) (offset : Nat) (text : List Char) :
    Except Diagnostic (List Char × List Property) :=
  match _hf : Directive.property.occurrence? text with
  | none => .ok (text, [])
  | some (before, found) =>
    let start := offset + utf8Size before
    match _hs : Groups.split found with
    | .error u => .error (Invocation.unclosedError .property ⟨start + utf8Size u.before⟩ place)
    | .ok split =>
      match ofInvocation (.ofSplit .property forms place.line start split) place with
      | .error d => .error d
      | .ok p =>
        match rewrite forms place (start + utf8Size split.consumed) split.rest with
        | .error d => .error d
        | .ok (text, ps) => .ok (before ++ p.object.toList ++ text, p :: ps)
termination_by text.length
decreasing_by
  have := Groups.length_rest_lt _hs (length_of_occurrence? _hf).2
  have := (length_of_occurrence? _hf).1
  omega

end Property

namespace RunState

/-- Records the properties stated in a line. -/
def recordProperties (s : RunState) (place : Place) (line : List Char) : RunState × LineOutput :=
  match Property.rewrite s.forms place 0 line with
  | .error d => (s.report d, .original)
  | .ok (text, ps) =>
    ({ s with
        exports := ps.foldl (fun e p => e.append p.name [(p.predicate, p.object)]) s.exports },
      .replaced (String.ofList text))

/-- Does what the directive of a line asks for. A line without one stays as it
    is. -/
def handle (ask : Request → Answer) (s : RunState) (place : Place) (line : List Char) :
    Except Failure (RunState × LineOutput) :=
  match Directive.classify line with
  | none => .ok (s, .original)
  | some (.shortForm, before, found) => .ok (s.declareForm place before found)
  | some (.importing, before, found) => .ok (s.importContent ask place before found)
  | some (.exporting, before, found) => s.recordExport place before found
  | some (.property, _) => .ok (s.recordProperties place line)

end RunState

end PaperGraph
