import Mathlib.Data.List.Infix
import PaperGraph.Project.Excludes
import PaperGraph.Proofs.Paths

/-!
# Patterns and components

A pattern is looked for in the text of a path. The components of a path are told by its
separators: where a text that ends with a separator occurs in the path, closed by a separator
too, its parts are components of the path, one after the other. Only the first of them need not
be whole, since nothing tells where it starts: it is the end of a component. So a pattern `**/d`
excludes a path in which the components of `d` stand one after the other, and also one in which
a longer component stands in place of the first one.

* `splitAt_append_part`: a part at the end of a text goes on with the last part of that;
* `closed_infix_iff`: where closed parts occur in others;
* `Pattern.passing_excludes_iff`: a pattern for the end of a path or of its start;
* `Path.isExcluded_anywhere`: what a pattern `**/d` excludes.
-/

namespace PaperGraph

namespace Text

variable {separator : Char} {text part first : List Char} {parts rest : List (List Char)}

/-! ## Closed parts -/

/-- Parts with a separator after each of them. -/
def closed (separator : Char) (parts : List (List Char)) : List Char :=
  parts.flatMap (· ++ [separator])

theorem closed_cons :
    closed separator (part :: parts) = part ++ separator :: closed separator parts := by
  rw [closed, List.flatMap_cons, List.append_assoc, List.singleton_append, closed]

theorem intercalate_append_separator (separator : Char) (hne : parts ≠ []) :
    List.intercalate [separator] parts ++ [separator] = closed separator parts := by
  induction parts with
  | nil => exact absurd rfl hne
  | cons part parts ih =>
    cases parts with
    | nil => simp [closed]
    | cons next parts =>
      rw [List.intercalate_cons_cons, List.append_assoc, ih (List.cons_ne_nil _ _)]
      rfl

theorem mem_intercalate {c : Char} (h : c ∈ List.intercalate [separator] parts) :
    c = separator ∨ ∃ part ∈ parts, c ∈ part := by
  by_cases hne : parts = []
  · rw [hne] at h
    cases h
  · have hclosed : c ∈ closed separator parts := by
      rw [← intercalate_append_separator separator hne]
      exact List.mem_append_left [separator] h
    obtain ⟨part, hpart, hmem⟩ := List.mem_flatMap.1 hclosed
    rw [List.mem_append, List.mem_singleton] at hmem
    exact hmem.symm.imp_right fun hmem => ⟨part, hpart, hmem⟩

theorem splitAt_closed_append (h : ∀ part ∈ parts, separator ∉ part) (text : List Char) :
    splitAt separator (closed separator parts ++ text) = parts ++ splitAt separator text := by
  induction parts with
  | nil => rfl
  | cons part parts ih =>
    obtain ⟨hpart, hparts⟩ := List.forall_mem_cons.1 h
    rw [closed_cons, List.append_assoc, List.cons_append, splitAt_append,
      splitAt_eq_singleton hpart, ih hparts, List.singleton_append, List.cons_append]

/-- What has no separator in it goes on with the last part of the text before it. -/
theorem splitAt_append_part (separator : Char) (text : List Char) : ∃ front start,
    ∀ part, separator ∉ part → splitAt separator (text ++ part) = front ++ [start ++ part] := by
  induction text with
  | nil =>
    exact ⟨[], [], fun part hpart => splitAt_eq_singleton hpart⟩
  | cons c text ih =>
    obtain ⟨front, start, h⟩ := ih
    by_cases hc : c = separator
    · refine ⟨[] :: front, start, fun part hpart => ?_⟩
      rw [List.cons_append, splitAt, if_pos hc, h part hpart, List.cons_append]
    · cases front with
      | nil =>
        refine ⟨[], c :: start, fun part hpart => ?_⟩
        rw [List.cons_append, splitAt, if_neg hc, h part hpart]
        rfl
      | cons other front =>
        refine ⟨(c :: other) :: front, start, fun part hpart => ?_⟩
        rw [List.cons_append, splitAt, if_neg hc, h part hpart]
        rfl

/-- Closed parts occur in others where they stand among these one after the other, but for
    the first one, which may be the end of another. -/
theorem closed_infix_iff (hfirst : ∀ part ∈ first :: rest, separator ∉ part)
    (hparts : ∀ part ∈ parts, separator ∉ part) :
    closed separator (first :: rest) <:+: closed separator parts ↔
      ∃ front start back, parts = front ++ (start ++ first) :: (rest ++ back) := by
  constructor
  · rintro ⟨before, after, he⟩
    obtain ⟨hwhole, hrest⟩ := List.forall_mem_cons.1 hfirst
    obtain ⟨front, start, hfront⟩ := splitAt_append_part separator before
    -- Both texts are cut at all their separators.
    have hcut : parts ++ [[]] =
        front ++ [start ++ first] ++ (rest ++ splitAt separator after) := calc
      parts ++ [[]] = splitAt separator (closed separator parts ++ []) :=
        (splitAt_closed_append hparts []).symm
      _ = splitAt separator ((before ++ first) ++
            separator :: (closed separator rest ++ after)) := by
        rw [List.append_nil, ← he]
        simp [closed]
      _ = front ++ [start ++ first] ++ (rest ++ splitAt separator after) := by
        rw [splitAt_append, hfront first hwhole, splitAt_closed_append hrest]
    -- The last part is empty on both sides.
    rw [← List.dropLast_append_getLast (splitAt_ne_nil separator after), ← List.append_assoc,
      ← List.append_assoc] at hcut
    obtain ⟨hcut, -⟩ := List.append_singleton_inj.1 hcut
    exact ⟨front, start, (splitAt separator after).dropLast, by rw [hcut]; simp⟩
  · rintro ⟨front, start, back, rfl⟩
    refine ⟨closed separator front ++ start, closed separator back, ?_⟩
    simp [closed]

end Text

open Text

/-! ## Patterns -/

namespace Pattern

theorem ofText_anywhere {tail : List Char} (h : '*' ∉ tail) :
    ofText (['*', '*', '/'] ++ tail) = .passing tail := by
  have hnone : stripEnd? ['/', '*'] tail = none := by
    rw [Option.eq_none_iff_forall_not_mem]
    intro before hbefore
    rw [append_of_stripEnd? hbefore] at h
    simp at h
  simp only [ofText, stripStart?_append, hnone]

/-- Such a pattern excludes the paths in which it occurs before a separator, if one is put at
    the end. -/
theorem passing_excludes_iff {tail path : List Char} :
    (passing tail).excludes path ↔ tail ++ ['/'] <:+: path ++ ['/'] := by
  rw [excludes, Bool.or_eq_true, stripEnd?_isSome_iff, occursIn_iff, List.infix_concat_iff]
  refine or_congr_left ?_
  constructor
  · rintro ⟨before, rfl⟩
    exact ⟨before, (List.append_assoc _ _ _).symm⟩
  · rintro ⟨before, he⟩
    rw [← List.append_assoc] at he
    exact ⟨before, (List.append_cancel_right he).symm⟩

end Pattern

namespace Path

variable {names rest : List String} {first : String} {patterns : List String} {p : Path}

@[simp]
theorem toList_ofNames (names : List String) :
    (ofNames names).text.toList = List.intercalate ['/'] (names.map String.toList) :=
  String.toList_intercalate

/-- What is in the text of a path along names is in a name, or separates two of them. -/
theorem not_mem_ofNames {c : Char} (hc : c ≠ '/') (h : ∀ name ∈ names, c ∉ name.toList) :
    c ∉ (ofNames names).text.toList := by
  rw [toList_ofNames]
  intro hmem
  rcases mem_intercalate hmem with hslash | ⟨part, hpart, hmem⟩
  · exact hc hslash
  · obtain ⟨name, hname, rfl⟩ := List.mem_map.1 hpart
    exact h name hname hmem

/-- A path without backslashes is looked at as it is. -/
theorem isExcluded_eq (h : '\\' ∉ p.text.toList) : p.isExcluded patterns =
    patterns.any fun pattern => (Pattern.ofText pattern.toList).excludes p.text.toList := by
  have hsame : p.text.toList.map (fun c => if c = '\\' then '/' else c) = p.text.toList := by
    refine (List.map_congr_left fun c hc => if_neg ?_).trans (List.map_id' _)
    rintro rfl
    exact h hc
  rw [isExcluded, hsame]

/-- A pattern `**/d` excludes a path if `d` occurs in it before a separator, if one is put at
    the end. -/
theorem isExcluded_anywhere_iff_occurs {tail : String} (htail : '*' ∉ tail.toList)
    (hnames : ∀ name ∈ names, '\\' ∉ name.toList) :
    (ofNames names).isExcluded ["**/" ++ tail] ↔
      tail.toList ++ ['/'] <:+: List.intercalate ['/'] (names.map String.toList) ++ ['/'] := by
  rw [isExcluded_eq (not_mem_ofNames (by decide) hnames), List.any_cons, List.any_nil,
    Bool.or_false, String.toList_append, ← toList_ofNames, ← Pattern.passing_excludes_iff,
    ← Pattern.ofText_anywhere htail]
  rfl

/-- The names of a path are told by its components. -/
theorem exists_names_iff :
    (∃ front start back, names.map String.toList =
      front ++ (start ++ first.toList) :: (rest.map String.toList ++ back)) ↔
    ∃ front start back, names = front ++ (start ++ first) :: (rest ++ back) := by
  constructor
  · rintro ⟨front, start, back, he⟩
    obtain ⟨front, later, rfl, -, hlater⟩ := List.map_eq_append_iff.1 he
    obtain ⟨name, later, rfl, hname, hlater⟩ := List.map_eq_cons_iff.1 hlater
    obtain ⟨middle, back, rfl, hmiddle, -⟩ := List.map_eq_append_iff.1 hlater
    obtain rfl := List.map_injective_iff.2 (fun _ _ => String.toList_inj.1) hmiddle
    refine ⟨front, String.ofList start, back, ?_⟩
    rw [← String.toList_inj.1 (hname.trans (by simp) : _ = (String.ofList start ++ first).toList)]
  · rintro ⟨front, start, back, rfl⟩
    exact ⟨front.map String.toList, start.toList, back.map String.toList, by simp⟩

/-- A pattern `**/d` excludes a path if the names of `d` stand in it one after the other, but
    for the first one, which may be the end of another. -/
theorem isExcluded_anywhere_iff_exists
    (hnames : ∀ name ∈ names, '/' ∉ name.toList ∧ '\\' ∉ name.toList)
    (hparts : ∀ part ∈ first :: rest, part ≠ "" ∧ '/' ∉ part.toList ∧ '*' ∉ part.toList) :
    (ofNames names).isExcluded ["**/" ++ "/".intercalate (first :: rest)] ↔
      ∃ front start back, names = front ++ (start ++ first) :: (rest ++ back) := by
  have htail : '*' ∉ ("/".intercalate (first :: rest)).toList :=
    not_mem_ofNames (by decide) fun part hpart => (hparts part hpart).2.2
  have hclosed : ("/".intercalate (first :: rest)).toList ++ ['/'] =
      closed '/' (first.toList :: rest.map String.toList) := by
    rw [String.toList_intercalate]
    exact intercalate_append_separator '/' (by simp)
  rw [isExcluded_anywhere_iff_occurs htail fun name hname => (hnames name hname).2,
    ← exists_names_iff, hclosed]
  by_cases hnil : names = []
  · -- The text of such a path is empty, and a name is not.
    have hfirst : first.toList ≠ [] := by simpa using (hparts first List.mem_cons_self).1
    have hpos := List.length_pos_iff.2 hfirst
    subst hnil
    refine iff_of_false (fun hinfix => ?_) (by simp)
    have hlength : (closed '/' (first.toList :: rest.map String.toList)).length ≤ 1 :=
      hinfix.length_le
    rw [closed_cons, List.length_append, List.length_cons] at hlength
    omega
  · have hne : names.map String.toList ≠ [] := by simpa using hnil
    rw [intercalate_append_separator '/' hne, closed_infix_iff]
    · rw [← List.map_cons, List.forall_mem_map]
      exact fun part hpart => (hparts part hpart).2.1
    · rw [List.forall_mem_map]
      exact fun name hname => (hnames name hname).1

/-- A pattern `**/d` excludes a path if the names of `d` stand in it one after the other, but
    for the first one, which may be the end of a longer name. If no name of the path is longer
    in this way, the names of `d` have to stand there as they are. -/
theorem isExcluded_anywhere
    (hnames : ∀ name ∈ names, '/' ∉ name.toList ∧ '\\' ∉ name.toList)
    (hparts : ∀ part ∈ first :: rest, part ≠ "" ∧ '/' ∉ part.toList ∧ '*' ∉ part.toList) :
    ((ofNames names).isExcluded ["**/" ++ "/".intercalate (first :: rest)] ↔
      ∃ front start back, names = front ++ (start ++ first) :: (rest ++ back)) ∧
    ((∀ name ∈ names, first.toList <:+ name.toList → name = first) →
      ((ofNames names).isExcluded ["**/" ++ "/".intercalate (first :: rest)] ↔
        first :: rest <:+: names)) := by
  have hiff := isExcluded_anywhere_iff_exists hnames hparts
  refine ⟨hiff, fun hwhole => hiff.trans ⟨?_, ?_⟩⟩
  · rintro ⟨front, start, back, rfl⟩
    have hfirst : start ++ first = first := hwhole _ (by simp) (by simp)
    exact ⟨front, back, by rw [hfirst]; simp⟩
  · rintro ⟨front, back, rfl⟩
    exact ⟨front, "", back, by simp⟩

/-- A path that leads through the directory of a pattern. -/
theorem isExcluded_oldDrafts :
    (ofNames ["sections", "drafts", "old", "intro.rdf.tex"]).isExcluded ["**/drafts/old"] ∧
    ((ofNames ["sections", "drafts", "old", "intro.rdf.tex"]).isExcluded
        ["**/" ++ "/".intercalate ["drafts", "old"]] ↔
      ["drafts", "old"] <:+: ["sections", "drafts", "old", "intro.rdf.tex"]) :=
  ⟨by decide +kernel, (isExcluded_anywhere (by decide +kernel) (by decide +kernel)).2
    (by decide +kernel)⟩

/-- A path that leads through another directory, whose name only ends with that of the
    pattern. -/
theorem isExcluded_longerName :
    (ofNames ["mydrafts", "intro.rdf.tex"]).isExcluded ["**/drafts"] ∧
    ¬ ["drafts"] <:+: ["mydrafts", "intro.rdf.tex"] := by
  decide +kernel

end Path

end PaperGraph
