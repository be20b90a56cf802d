import PaperGraph.Proofs.GroupForms
import PaperGraph.Proofs.Handling

/-!
# Gaps

Between the command of a directive and the first of its groups there may be a gap:
any text without an opening brace. It is taken up with the directive, and the groups
after it are taken for its arguments, however far away they stand. There is no gap
exactly if a brace follows the command directly.

* `Invocation.TakesUp`: what an invocation takes up of its line;
* `Invocation.exists_takesUp`: every invocation that has its arguments takes up its
  command, a gap and these;
* `Invocation.takesUp_nil_iff`: when there is no gap.
-/

namespace PaperGraph

open Text Groups

/-- A directive occurs where its command stands. -/
theorem Directive.starts_of_occurrence? {d : Directive} {line before found : List Char}
    {previous : Option Char} (h : d.occurrence? line previous = some (before, found)) :
    d.command.toList <+: found := by
  induction line generalizing previous before with
  | nil => simp [occurrence?] at h
  | cons c line ih =>
    rw [occurrence?] at h
    split at h
    · next hstart =>
      obtain ⟨rfl, rfl⟩ := Prod.mk.inj (Option.some.inj h)
      exact List.isPrefixOf_iff_prefix.1 hstart.1
    · obtain ⟨⟨b, f⟩, hb, he⟩ := Option.map_eq_some_iff.1 h
      obtain ⟨rfl, rfl⟩ := Prod.mk.inj he
      exact ih hb

theorem Directive.brace_not_mem_command (d : Directive) : '\x7b' ∉ d.command.toList := by
  cases d <;> decide

theorem Directive.arity_pos (d : Directive) : 0 < d.arity := by
  cases d <;> decide

namespace Invocation

variable {d : Directive} {forms : Dictionary} {number : Nat} {i : Invocation}
  {line before found gap : List Char} {groups : List (List Char)}

/-- The invocation takes up the command, which `found` starts with, then the gap, and
    then the groups, one right after the other. These are its arguments, and its end
    in the line is where the last of them ends. -/
structure TakesUp (i : Invocation) (forms : Dictionary) (before found gap : List Char)
    (groups : List (List Char)) : Prop where
  starts : i.directive.command.toList ++ gap ++ groups.flatMap braced <+: found
  balanced : ∀ g ∈ groups, Balanced g
  arguments : i.arguments = groups.map fun g => String.ofList (ShortForms.resolve forms g)
  endOffset : i.endOffset =
    utf8Size (before ++ i.directive.command.toList ++ gap ++ groups.flatMap braced)

/-- What stands before the first brace of a text is its command and a gap. -/
theorem exists_gap {command leading rest : List Char} (hcommand : '\x7b' ∉ command)
    (h : command <+: leading ++ '\x7b' :: rest) : ∃ gap, leading = command ++ gap := by
  rcases List.prefix_or_prefix_of_prefix h (List.prefix_append leading _) with
    ⟨gap, hgap⟩ | ⟨more, rfl⟩
  · exact ⟨gap, hgap.symm⟩
  · -- The command goes on after `leading`, but not with a brace.
    have hmore := (List.prefix_append_right_inj leading).1 h
    cases more with
    | nil => exact ⟨[], by simp⟩
    | cons c more =>
      obtain ⟨rfl, _⟩ := List.cons_prefix_cons.1 hmore
      exact absurd (List.mem_append_right _ List.mem_cons_self) hcommand

/-- Every invocation that has its arguments takes up its command, a gap and these. -/
theorem exists_takesUp (hstarts : d.command.toList <+: found)
    (hread : read d forms number (utf8Size before) found = .ok i) (harity : i.hasArity) :
    i.directive = d ∧ ∃ gap groups, '\x7b' ∉ gap ∧ groups.length = d.arity ∧
      i.TakesUp forms before found gap groups := by
  obtain ⟨form, hform, rfl⟩ := Form.exists_form found
  rw [read, Form.split_text hform] at hread
  cases form with
  | plain text =>
    obtain rfl := Except.ok.inj hread
    have hnone : (0 : Nat) = d.arity := of_decide_eq_true harity
    exact absurd hnone d.arity_pos.ne
  | closed leading groups rest =>
    obtain rfl := Except.ok.inj hread
    obtain ⟨hleading, hne, hbalanced, _⟩ := hform
    have hlength : (groups.map fun g => String.ofList (ShortForms.resolve forms g)).length =
      d.arity := of_decide_eq_true harity
    rw [List.length_map] at hlength
    obtain ⟨gap, rfl⟩ : ∃ gap, leading = d.command.toList ++ gap := by
      obtain ⟨g, others, rfl⟩ := List.exists_cons_of_ne_nil hne
      have hbrace : d.command.toList <+:
          leading ++ '\x7b' :: (g ++ '\x7d' :: (others.flatMap braced ++ rest)) := by
        simpa [Form.text, braced] using hstarts
      exact exists_gap d.brace_not_mem_command hbrace
    refine ⟨rfl, gap, groups, fun hgap => hleading (List.mem_append_right _ hgap), hlength, ?_⟩
    exact {
      starts := List.prefix_append _ rest
      balanced := hbalanced
      arguments := rfl
      endOffset := by
        simp only [ofSplit, Split.consumed, utf8Size_append]
        omega }
  | unclosed => simp [Form.split] at hread

/-- Groups that follow the command directly start with a brace behind it. -/
theorem TakesUp.brace_follows (h : i.TakesUp forms before found [] groups)
    (hne : i.arguments ≠ []) : i.directive.command.toList ++ ['\x7b'] <+: found := by
  cases groups with
  | nil => exact absurd h.arguments hne
  | cons g groups =>
    have hstarts := h.starts
    rw [List.append_nil, List.flatMap_cons, braced, List.cons_append, List.cons_append] at hstarts
    refine List.IsPrefix.trans ?_ hstarts
    rw [List.prefix_append_right_inj]
    exact List.cons_prefix_cons.2 ⟨rfl, List.nil_prefix⟩

/-- A directive that occurs in a line and has its arguments takes up its command,
    then a gap, and then these. The gap is empty, so that it takes up its name and its
    groups only, if and only if an opening brace directly follows the name. -/
theorem takesUp_nil_iff (hfound : d.occurrence? line = some (before, found))
    (hread : read d forms number (utf8Size before) found = .ok i) (harity : i.hasArity) :
    line = before ++ found ∧ i.directive = d ∧
      (∃ gap groups, '\x7b' ∉ gap ∧ groups.length = d.arity ∧
        i.TakesUp forms before found gap groups) ∧
      ((∃ groups, i.TakesUp forms before found [] groups) ↔
        d.command.toList ++ ['\x7b'] <+: found) := by
  obtain ⟨rfl, gap, groups, hgap, hlength, htakes⟩ :=
    exists_takesUp (Directive.starts_of_occurrence? hfound) hread harity
  refine ⟨Directive.append_of_occurrence? hfound, rfl, ⟨gap, groups, hgap, hlength, htakes⟩, ?_, ?_⟩
  · rintro ⟨others, hothers⟩
    refine hothers.brace_follows fun hnil => ?_
    have harguments : i.arguments.length = i.directive.arity := of_decide_eq_true harity
    rw [hnil] at harguments
    exact absurd harguments i.directive.arity_pos.ne
  · intro hbrace
    -- A gap would have to start with that brace.
    obtain ⟨more, rfl⟩ := hbrace
    have hstarts := htakes.starts
    rw [List.append_assoc, List.append_assoc, List.prefix_append_right_inj] at hstarts
    cases gap with
    | nil => exact ⟨groups, htakes⟩
    | cons c gap =>
      obtain ⟨rfl, _⟩ := List.cons_prefix_cons.1 hstarts
      exact absurd List.mem_cons_self hgap

/-- A line with a mention of a directive before the directive itself. -/
def guardedLine : List Char :=
  "x \\rdfprefix\x7ba\x7d\x7bb\x7d~\\rdfprefix\x7bc\x7d\x7bd\x7d.".toList

/-- The directive of `guardedLine`, which follows no blank. -/
def guardedInvocation : Invocation where
  directive := .shortForm
  arguments := ["c", "d"]
  line := 1
  endOffset := 35

theorem takesUp_guardedLine :
    ∃ groups, guardedInvocation.TakesUp .empty (guardedLine.take 19) (guardedLine.drop 19) []
      groups := by
  have hfound : Directive.shortForm.occurrence? guardedLine =
      some (guardedLine.take 19, guardedLine.drop 19) := by decide +kernel
  have hread : read .shortForm .empty 1 (utf8Size (guardedLine.take 19)) (guardedLine.drop 19) =
      .ok guardedInvocation := by decide +kernel
  have harity : guardedInvocation.hasArity := by decide
  exact (takesUp_nil_iff hfound hread harity).2.2.2.2 (by decide +kernel)

/-- A line that speaks of a command, and has groups later on. -/
def mentionLine : List Char :=
  "The \\rdfproperty command takes \x7ba\x7d\x7bb\x7d\x7bc\x7d here.\n".toList

/-- What is read there, the words after the name being passed over. -/
def mentionInvocation : Invocation where
  directive := .property
  arguments := ["a", "b", "c"]
  line := 1
  endOffset := 40

/-- Groups are taken for arguments that do not follow the name of the directive. -/
theorem not_takesUp_mentionLine :
    Directive.property.occurrence? mentionLine = some (mentionLine.take 4, mentionLine.drop 4) ∧
      read .property .empty 1 (utf8Size (mentionLine.take 4)) (mentionLine.drop 4) =
        .ok mentionInvocation ∧
      mentionInvocation.hasArity ∧
      ¬ ∃ groups, mentionInvocation.TakesUp .empty (mentionLine.take 4) (mentionLine.drop 4) []
        groups := by
  refine ⟨by decide +kernel, by decide +kernel, by decide, ?_⟩
  rintro ⟨groups, htakes⟩
  exact absurd (htakes.brace_follows (by decide)) (by decide +kernel)

end Invocation

end PaperGraph
