import PaperGraph.Proofs.Excluding

/-!
# Patterns of what directories contain

A pattern `d/*`, with `**/` before it or not, stands for all that lies below a directory,
wherever that is. It is looked for at the start of a path and after every separator, and ends
with a separator itself. So it is found in a path with a separator put before it, and there it
starts and ends with one: nothing of a component is left over on either side. What follows the
last separator of the path is no part of it, since something has to lie in the directory.

* `Text.closed_infix_dropLast_iff`: where parts stand whole among others, one after the other,
  and not at the end;
* `Pattern.ofText_below`, `Pattern.ofText_below_anywhere`: the two spellings of a pattern;
* `Pattern.below_excludes_iff`: it is found after a separator;
* `Path.isExcluded_below`: what the patterns `d/*` and `**/d/*` exclude.
-/

namespace PaperGraph

namespace Text

variable {separator : Char} {text last : List Char} {parts sought : List (List Char)}

/-- A text that ends with a separator is not found beyond the last one. -/
theorem infix_append_iff (h : separator ∉ last) (needle : List Char) :
    needle ++ [separator] <:+: text ++ last ↔ needle ++ [separator] <:+: text := by
  refine ⟨?_, fun hinfix => hinfix.trans (List.prefix_append text last).isInfix⟩
  rintro ⟨before, after, he⟩
  rcases List.append_eq_append_iff.1 he with ⟨rest, rfl, -⟩ | ⟨rest, hwhole, rfl⟩
  · exact ⟨before, rest, rfl⟩
  · -- What goes beyond the last separator would end with one.
    rcases rest.eq_nil_or_concat with rfl | ⟨front, c, rfl⟩
    · exact ⟨before, [], by rw [List.append_nil, hwhole, List.append_nil]⟩
    · rw [List.concat_eq_append, ← List.append_assoc, ← List.append_assoc] at hwhole
      obtain ⟨-, hc⟩ := List.append_singleton_inj.1 hwhole
      exact absurd (by simp [hc]) h

/-- Parts stand after an empty one, or after another that they follow, where they stand among
    the parts at all. -/
theorem exists_cons_iff_infix : (∃ front start back, [] :: parts =
    front ++ (start ++ ([] : List Char)) :: (sought ++ back)) ↔ sought <:+: parts := by
  constructor
  · rintro ⟨front, start, back, he⟩
    cases front with
    | nil => exact ⟨[], back, (List.cons.inj he).2.symm⟩
    | cons _ front => exact ⟨front ++ [start], back, by rw [(List.cons.inj he).2]; simp⟩
  · rintro ⟨front, back, rfl⟩
    rcases front.eq_nil_or_concat with rfl | ⟨front, start, rfl⟩
    · exact ⟨[], [], back, by simp⟩
    · exact ⟨[] :: front, start, back, by simp⟩

/-- The text of parts, with a separator before it, has a separator before the last part, and
    none in it. -/
theorem exists_last_part (h : ∀ part ∈ parts, separator ∉ part) : ∃ last, separator ∉ last ∧
    separator :: List.intercalate [separator] parts =
      closed separator ([] :: parts.dropLast) ++ last := by
  rcases parts.eq_nil_or_concat with rfl | ⟨front, last, rfl⟩
  · exact ⟨[], List.not_mem_nil, rfl⟩
  · refine ⟨last, h last (by simp), ?_⟩
    have hjoin : List.intercalate [separator] (front ++ [last]) ++ [separator] =
        closed separator front ++ last ++ [separator] := by
      rw [intercalate_append_separator separator (by simp), closed, List.flatMap_append]
      simp [closed]
    rw [List.concat_eq_append, List.dropLast_concat, closed_cons, List.append_cancel_right hjoin]
    rfl

/-- Parts with a separator before and after each of them occur in the text of others where they
    stand among these one after the other, all of them before the last one. -/
theorem closed_infix_dropLast_iff (hsought : ∀ part ∈ sought, separator ∉ part)
    (hparts : ∀ part ∈ parts, separator ∉ part) :
    separator :: closed separator sought <:+: separator :: List.intercalate [separator] parts ↔
      sought <:+: parts.dropLast := by
  have hfirst : separator :: closed separator sought = closed separator ([] :: sought) := by
    rw [closed_cons, List.nil_append]
  obtain ⟨last, hlast, htext⟩ := exists_last_part hparts
  rw [htext, hfirst, ← intercalate_append_separator separator (List.cons_ne_nil [] sought),
    infix_append_iff hlast, intercalate_append_separator separator (List.cons_ne_nil [] sought),
    closed_infix_iff, exists_cons_iff_infix]
  · exact List.forall_mem_cons.2 ⟨List.not_mem_nil, hsought⟩
  · exact List.forall_mem_cons.2
      ⟨List.not_mem_nil, fun part hpart => hparts part (List.dropLast_subset parts hpart)⟩

end Text

open Text

/-! ## Patterns -/

namespace Pattern

variable {directory path : List Char}

theorem ofText_below (h : '*' ∉ directory) :
    ofText (directory ++ ['/', '*']) = .below directory := by
  have hstar (start : List Char) : stripStart? ('*' :: start) (directory ++ ['/', '*']) = none := by
    rw [Option.eq_none_iff_forall_not_mem]
    intro after hafter
    have htext := append_of_stripStart? hafter
    cases directory with
    | nil => simp at htext
    | cons c directory => exact h (by simp [(List.cons.inj htext).1])
  simp only [ofText, hstar, stripEnd?_append]

theorem ofText_below_anywhere (directory : List Char) :
    ofText (['*', '*', '/'] ++ (directory ++ ['/', '*'])) = .below directory := by
  simp only [ofText, stripStart?_append, stripEnd?_append]

/-- Such a pattern excludes the paths in which it occurs after a separator, if one is put at
    the start. -/
theorem below_excludes_iff :
    (below directory).excludes path ↔ '/' :: (directory ++ ['/']) <:+: '/' :: path := by
  rw [excludes, Bool.or_eq_true, List.isPrefixOf_iff_prefix, occursIn_iff, List.infix_cons_iff,
    List.cons_prefix_cons]
  simp

end Pattern

namespace Path

variable {names parts : List String}

/-- What comes before the last name of a path is followed by a name. -/
theorem infix_dropLast_iff (hne : parts ≠ []) :
    parts <:+: names.dropLast ↔ ∃ front next back, names = front ++ parts ++ next :: back := by
  constructor
  · rintro ⟨front, back, he⟩
    rcases names.eq_nil_or_concat with rfl | ⟨before, last, rfl⟩
    · simp [hne] at he
    · rw [List.concat_eq_append, List.dropLast_concat] at he
      -- The last name is the next one, if it follows right after the parts.
      obtain ⟨next, rest, hrest⟩ := List.exists_cons_of_ne_nil (List.concat_ne_nil last back)
      refine ⟨front, next, rest, ?_⟩
      rw [List.concat_eq_append, ← he, List.append_assoc, hrest]
  · rintro ⟨front, next, back, rfl⟩
    refine ⟨front, (next :: back).dropLast, ?_⟩
    rw [List.dropLast_append_of_ne_nil (List.cons_ne_nil next back)]

/-- Both patterns of what is below a directory exclude the same. -/
theorem isExcluded_below_iff_excludes {directory : String} (hdirectory : '*' ∉ directory.toList)
    (hnames : ∀ name ∈ names, '\\' ∉ name.toList) :
    ∀ pattern ∈ [directory ++ "/*", "**/" ++ directory ++ "/*"],
      ((ofNames names).isExcluded [pattern] ↔
        (Pattern.below directory.toList).excludes (ofNames names).text.toList) := by
  have hof : ∀ pattern ∈ [directory ++ "/*", "**/" ++ directory ++ "/*"],
      Pattern.ofText pattern.toList = .below directory.toList := by
    simp only [List.forall_mem_cons, String.toList_append]
    exact ⟨Pattern.ofText_below hdirectory,
      (congrArg _ (List.append_assoc _ _ _)).trans (Pattern.ofText_below_anywhere _),
      fun _ h => absurd h List.not_mem_nil⟩
  intro pattern hpattern
  rw [isExcluded_eq (not_mem_ofNames (by decide) hnames), List.any_cons, List.any_nil,
    Bool.or_false, hof pattern hpattern]

/-- A pattern `d/*` or `**/d/*` excludes the paths in which the names of `d` stand one after the
    other, with one more name after them. -/
theorem isExcluded_below (hne : parts ≠ [])
    (hparts : ∀ part ∈ parts, '/' ∉ part.toList ∧ '*' ∉ part.toList)
    (hnames : ∀ name ∈ names, '/' ∉ name.toList ∧ '\\' ∉ name.toList) :
    ∀ pattern ∈ ["/".intercalate parts ++ "/*", "**/" ++ "/".intercalate parts ++ "/*"],
      ((ofNames names).isExcluded [pattern] ↔
        ∃ front next back, names = front ++ parts ++ next :: back) := by
  have hstar : '*' ∉ ("/".intercalate parts).toList :=
    not_mem_ofNames (by decide) fun part hpart => (hparts part hpart).2
  have hclosed : ("/".intercalate parts).toList ++ ['/'] =
      closed '/' (parts.map String.toList) := by
    rw [String.toList_intercalate]
    exact intercalate_append_separator '/' (by simpa using hne)
  intro pattern hpattern
  rw [isExcluded_below_iff_excludes hstar (fun name hname => (hnames name hname).2) pattern
    hpattern,
    Pattern.below_excludes_iff, hclosed, toList_ofNames, closed_infix_dropLast_iff,
    ← infix_dropLast_iff hne, ← List.map_dropLast, List.infix_map_iff]
  · constructor
    · rintro ⟨found, hfound, hsame⟩
      rwa [List.map_injective_iff.2 (fun _ _ => String.toList_inj.1) hsame]
    · exact fun hinfix => ⟨parts, hinfix, rfl⟩
  · exact List.forall_mem_map.2 fun part hpart => (hparts part hpart).1
  · exact List.forall_mem_map.2 fun name hname => (hnames name hname).1

/-- A directory at some depth: a paper in it is excluded by both patterns, a directory of a
    longer name is not, and neither is the directory itself. -/
theorem isExcluded_oldDraftsContents :
    (∀ pattern ∈ ["/".intercalate ["drafts", "old"] ++ "/*",
        "**/" ++ "/".intercalate ["drafts", "old"] ++ "/*"],
      ((ofNames ["sections", "drafts", "old", "intro.rdf.tex"]).isExcluded [pattern] ↔
        ∃ front next back, ["sections", "drafts", "old", "intro.rdf.tex"] =
          front ++ ["drafts", "old"] ++ next :: back)) ∧
    ∀ pattern ∈ ["drafts/old/*", "**/drafts/old/*"],
      (ofNames ["sections", "drafts", "old", "intro.rdf.tex"]).isExcluded [pattern] ∧
        ¬ (ofNames ["mydrafts", "old", "intro.rdf.tex"]).isExcluded [pattern] ∧
        ¬ (ofNames ["sections", "drafts", "old"]).isExcluded [pattern] :=
  ⟨isExcluded_below (by decide) (by decide +kernel) (by decide +kernel), by decide +kernel⟩

end Path

end PaperGraph
