import Mathlib.Data.List.Basic
import Mathlib.Data.List.Infix
import PaperGraph.Directive.Groups

/-!
# Forms of texts with groups

A text has one of three forms, and no two: it has no group; it has groups, one
right after the other, each of which is closed; or it has such groups and after
them one that is not closed. Which of them it is, and which groups these are, is
told by counting braces alone: a group ends where more braces have been closed
than opened for the first time.

* `StaysOpen`, `Closes`: what may stand in a group that is not closed, and in one
  that is;
* `close?_eq_some_iff`, `close?_eq_none_iff`: where a group ends;
* `balanced_iff`: what may stand in a group is balanced, and the other way round;
* `Form.split_text`: a text of each form is split as its form has it;
* `existsUnique_form`: every text has exactly one form, and the groups and the
  places that are told of it are those of its form.
-/

namespace PaperGraph.Groups

open Text

/-! ## Open and closed braces -/

/-- No start of the text closes more groups than it opens, but for `depth` ones
    that were open before it. -/
def StaysOpen (depth : Nat) (cs : List Char) : Prop :=
  ∀ start, start <+: cs → start.count '\x7d' ≤ start.count '\x7b' + depth

/-- The text closes all groups that it opens, and `depth` ones that were open
    before it, and no start of it closes more. -/
structure Closes (depth : Nat) (cs : List Char) : Prop where
  count_eq : cs.count '\x7d' = cs.count '\x7b' + depth
  staysOpen : StaysOpen depth cs

variable {depth : Nat} {c : Char} {cs : List Char}

theorem staysOpen_nil (depth : Nat) : StaysOpen depth [] := by
  intro start hstart
  rw [List.prefix_nil.1 hstart]
  exact Nat.zero_le _

/-- Of a text without its first character one has to look at the starts with that
    character put back. -/
theorem staysOpen_cons_iff : StaysOpen depth (c :: cs) ↔
    ∀ start, start <+: cs → (c :: start).count '\x7d' ≤ (c :: start).count '\x7b' + depth := by
  constructor
  · exact fun h start hstart => h _ (List.cons_prefix_cons.2 ⟨rfl, hstart⟩)
  · intro h start hstart
    rcases List.prefix_cons_iff.1 hstart with rfl | ⟨rest, rfl, hrest⟩
    · exact Nat.zero_le _
    · exact h rest hrest

theorem staysOpen_open : StaysOpen depth ('\x7b' :: cs) ↔ StaysOpen (depth + 1) cs := by
  rw [staysOpen_cons_iff]
  refine forall₂_congr fun start _ => ?_
  rw [List.count_cons_of_ne (by decide), List.count_cons_self]
  omega

theorem not_staysOpen_close : ¬ StaysOpen 0 ('\x7d' :: cs) := by
  intro h
  have hone := staysOpen_cons_iff.1 h [] List.nil_prefix
  simp at hone

theorem staysOpen_close : StaysOpen (depth + 1) ('\x7d' :: cs) ↔ StaysOpen depth cs := by
  rw [staysOpen_cons_iff]
  refine forall₂_congr fun start _ => ?_
  rw [List.count_cons_self, List.count_cons_of_ne (by decide)]
  omega

theorem staysOpen_cons_of_ne (hopen : c ≠ '\x7b') (hclose : c ≠ '\x7d') :
    StaysOpen depth (c :: cs) ↔ StaysOpen depth cs := by
  rw [staysOpen_cons_iff]
  refine forall₂_congr fun start _ => ?_
  rw [List.count_cons_of_ne hclose, List.count_cons_of_ne hopen]

theorem closes_iff : Closes depth cs ↔
    cs.count '\x7d' = cs.count '\x7b' + depth ∧ StaysOpen depth cs :=
  ⟨fun h => ⟨h.count_eq, h.staysOpen⟩, fun h => ⟨h.1, h.2⟩⟩

theorem closes_nil (depth : Nat) : Closes depth [] ↔ depth = 0 := by
  rw [closes_iff, and_iff_left (staysOpen_nil depth), List.count_nil, List.count_nil]
  omega

theorem closes_open : Closes depth ('\x7b' :: cs) ↔ Closes (depth + 1) cs := by
  rw [closes_iff, closes_iff, staysOpen_open, List.count_cons_of_ne (by decide),
    List.count_cons_self]
  refine and_congr_left fun _ => ?_
  omega

theorem not_closes_close : ¬ Closes 0 ('\x7d' :: cs) :=
  fun h => not_staysOpen_close h.staysOpen

theorem closes_close : Closes (depth + 1) ('\x7d' :: cs) ↔ Closes depth cs := by
  rw [closes_iff, closes_iff, staysOpen_close, List.count_cons_self,
    List.count_cons_of_ne (by decide)]
  refine and_congr_left fun _ => ?_
  omega

theorem closes_cons_of_ne (hopen : c ≠ '\x7b') (hclose : c ≠ '\x7d') :
    Closes depth (c :: cs) ↔ Closes depth cs := by
  rw [closes_iff, closes_iff, staysOpen_cons_of_ne hopen hclose, List.count_cons_of_ne hclose,
    List.count_cons_of_ne hopen]

/-! ## The end of a group -/

theorem close?_open : close? depth ('\x7b' :: cs) =
    (close? (depth + 1) cs).map fun (inner, rest) => ('\x7b' :: inner, rest) := by
  simp [close?]

theorem close?_close_zero : close? 0 ('\x7d' :: cs) = some ([], cs) := by
  simp [close?]

theorem close?_close_succ : close? (depth + 1) ('\x7d' :: cs) =
    (close? depth cs).map fun (inner, rest) => ('\x7d' :: inner, rest) := by
  simp [close?]

theorem close?_cons_of_ne (hopen : c ≠ '\x7b') (hclose : c ≠ '\x7d') :
    close? depth (c :: cs) = (close? depth cs).map fun (inner, rest) => (c :: inner, rest) := by
  simp [close?, hopen, hclose]

/-- A character that does not end a group stands at the front of its text. -/
theorem map_close?_eq_some_iff {depth' : Nat} {inner rest : List Char}
    (ih : ∀ {inner}, close? depth' cs = some (inner, rest) ↔
      cs = inner ++ '\x7d' :: rest ∧ Closes depth' inner)
    (hstep : ∀ cs, Closes depth (c :: cs) ↔ Closes depth' cs) (hne : c = '\x7d' → depth ≠ 0) :
    (close? depth' cs).map (fun (inner, rest) => (c :: inner, rest)) = some (inner, rest) ↔
      c :: cs = inner ++ '\x7d' :: rest ∧ Closes depth inner := by
  rw [Option.map_eq_some_iff]
  constructor
  · rintro ⟨⟨start, _⟩, hstart, he⟩
    obtain ⟨rfl, rfl⟩ := Prod.mk.inj he
    obtain ⟨rfl, hcloses⟩ := ih.1 hstart
    exact ⟨rfl, (hstep start).2 hcloses⟩
  · rintro ⟨he, hcloses⟩
    cases inner with
    | nil => exact absurd ((closes_nil depth).1 hcloses) (hne (List.cons.inj he).1)
    | cons _ start =>
      obtain ⟨rfl, rfl⟩ := List.cons.inj he
      exact ⟨(start, rest), ih.2 ⟨rfl, (hstep start).1 hcloses⟩, rfl⟩

/-- A group ends at the first brace that closes more than was opened in it. -/
theorem close?_eq_some_iff {inner rest : List Char} : close? depth cs = some (inner, rest) ↔
    cs = inner ++ '\x7d' :: rest ∧ Closes depth inner := by
  induction cs generalizing depth inner with
  | nil => simp [close?]
  | cons c cs ih =>
    by_cases hopen : c = '\x7b'
    · subst hopen
      rw [close?_open]
      exact map_close?_eq_some_iff ih (fun _ => closes_open) fun h => absurd h (by decide)
    by_cases hclose : c = '\x7d'
    · subst hclose
      cases depth with
      | zero =>
        rw [close?_close_zero]
        constructor
        · intro h
          obtain ⟨rfl, rfl⟩ := Prod.mk.inj (Option.some.inj h)
          exact ⟨rfl, (closes_nil 0).2 rfl⟩
        · rintro ⟨he, hcloses⟩
          cases inner with
          | nil => rw [(List.cons.inj he).2]
          | cons _ start =>
            obtain ⟨rfl, _⟩ := List.cons.inj he
            exact absurd hcloses not_closes_close
      | succ depth =>
        rw [close?_close_succ]
        exact map_close?_eq_some_iff ih (fun _ => closes_close) fun _ => Nat.succ_ne_zero depth
    · rw [close?_cons_of_ne hopen hclose]
      exact map_close?_eq_some_iff ih (fun _ => closes_cons_of_ne hopen hclose)
        fun h => absurd h hclose

/-- A group has no end if no brace closes more than was opened in it. -/
theorem close?_eq_none_iff : close? depth cs = none ↔ StaysOpen depth cs := by
  induction cs generalizing depth with
  | nil => simp [close?, staysOpen_nil]
  | cons c cs ih =>
    by_cases hopen : c = '\x7b'
    · subst hopen
      rw [close?_open, Option.map_eq_none_iff, ih, staysOpen_open]
    by_cases hclose : c = '\x7d'
    · subst hclose
      cases depth with
      | zero => simp [close?_close_zero, not_staysOpen_close]
      | succ depth => rw [close?_close_succ, Option.map_eq_none_iff, ih, staysOpen_close]
    · rw [close?_cons_of_ne hopen hclose, Option.map_eq_none_iff, ih,
        staysOpen_cons_of_ne hopen hclose]

theorem exists_end (h : ¬ StaysOpen depth cs) :
    ∃ inner rest, cs = inner ++ '\x7d' :: rest ∧ Closes depth inner := by
  rw [← close?_eq_none_iff, ← ne_eq, Option.ne_none_iff_exists'] at h
  obtain ⟨⟨inner, rest⟩, hclose⟩ := h
  exact ⟨inner, rest, close?_eq_some_iff.1 hclose⟩

/-! ## Balanced texts -/

/-- What closes all that it opens can be left out of a text. -/
theorem closes_append {inner : List Char} (hinner : Closes 0 inner) :
    Closes depth (inner ++ cs) ↔ Closes depth cs := by
  have hcount := hinner.count_eq
  rw [closes_iff, closes_iff, List.count_append, List.count_append]
  refine and_congr (by omega) ⟨fun h start hstart => ?_, fun h start hstart => ?_⟩
  · have hle := h (inner ++ start) ((List.prefix_append_right_inj inner).2 hstart)
    rw [List.count_append, List.count_append] at hle
    omega
  · -- A start of the whole text ends within what is left out, or goes beyond it.
    rcases List.prefix_or_prefix_of_prefix hstart (List.prefix_append inner cs) with
      hshort | ⟨more, rfl⟩
    · have hle := hinner.staysOpen start hshort
      omega
    · have hle := h more ((List.prefix_append_right_inj inner).1 hstart)
      rw [List.count_append, List.count_append]
      omega

theorem Balanced.closes (h : Balanced cs) : Closes 0 cs := by
  induction h with
  | nil => exact (closes_nil 0).2 rfl
  | char hopen hclose _ ih => exact (closes_cons_of_ne hopen hclose).2 ih
  | group _ _ hinner ih =>
    rw [List.cons_append, closes_open, closes_append hinner]
    exact closes_close.2 ih

theorem Closes.balanced {cs : List Char} (h : Closes 0 cs) : Balanced cs := by
  match cs with
  | [] => exact .nil
  | c :: cs =>
    by_cases hopen : c = '\x7b'
    · subst hopen
      -- What follows the brace closes one more than it opens, so the group ends in it.
      have hone := closes_open.1 h
      have hends : ¬ StaysOpen 0 cs := fun hstays => by
        have hle := hstays cs List.prefix_rfl
        have heq := hone.count_eq
        omega
      obtain ⟨inner, rest, rfl, hinner⟩ := exists_end hends
      have hrest := closes_close.1 ((closes_append hinner).1 hone)
      exact .group hinner.balanced hrest.balanced
    by_cases hclose : c = '\x7d'
    · subst hclose
      exact absurd h not_closes_close
    · exact .char hopen hclose ((closes_cons_of_ne hopen hclose).1 h).balanced
termination_by cs.length

/-- The balanced texts are those that close what they open, and nothing else. -/
theorem balanced_iff : Balanced cs ↔ Closes 0 cs :=
  ⟨Balanced.closes, Closes.balanced⟩

/-! ## Groups at the start of a text -/

variable {groups : List (List Char)} {leading rest tail : List Char}

theorem adjacent_of_head?_ne (h : rest.head? ≠ some '\x7b') : adjacent rest = .ok ([], rest) := by
  cases rest with
  | nil => rw [adjacent]
  | cons c rest =>
    rw [adjacent, if_neg]
    rintro rfl
    exact h rfl

theorem adjacent_open (h : StaysOpen 0 tail) : adjacent ('\x7b' :: tail) = .error ⟨[]⟩ := by
  rw [adjacent, if_pos rfl]
  split
  · rfl
  · next hclose => simp [close?_eq_none_iff.2 h] at hclose

theorem braced_append (inner text : List Char) :
    braced inner ++ text = '\x7b' :: (inner ++ '\x7d' :: text) := by
  simp [braced]

theorem adjacent_braced {inner : List Char} (h : Balanced inner) (text : List Char) :
    adjacent (braced inner ++ text) = match adjacent text with
      | .ok (groups, rest) => .ok (inner :: groups, rest)
      | .error u => .error ⟨braced inner ++ u.before⟩ := by
  have hclose : close? 0 (inner ++ '\x7d' :: text) = some (inner, text) :=
    close?_eq_some_iff.2 ⟨rfl, balanced_iff.1 h⟩
  rw [braced_append, adjacent, if_pos rfl]
  split
  · next hnone => simp [hclose] at hnone
  · next hsome =>
    obtain ⟨rfl, rfl⟩ := Prod.mk.inj (Option.some.inj (hclose.symm.trans hsome))
    rfl

/-- Groups at the start of a text come before those of the rest. -/
theorem adjacent_groups (h : ∀ g ∈ groups, Balanced g) (text : List Char) :
    adjacent (groups.flatMap braced ++ text) = match adjacent text with
      | .ok (others, rest) => .ok (groups ++ others, rest)
      | .error u => .error ⟨groups.flatMap braced ++ u.before⟩ := by
  induction groups with
  | nil =>
    rw [List.flatMap_nil, List.nil_append]
    rcases adjacent text with _ | _
    · rfl
    · rfl
  | cons g groups ih =>
    obtain ⟨hg, hgroups⟩ := List.forall_mem_cons.1 h
    rw [List.flatMap_cons, List.append_assoc, adjacent_braced hg, ih hgroups]
    rcases adjacent text with _ | _
    · simp
    · rfl

/-- Every text starts with groups that are closed, and no group follows them, or
    one that is not closed. -/
theorem exists_groups (text : List Char) : ∃ groups : List (List Char),
    (∀ g ∈ groups, Balanced g) ∧
      ((∃ rest, rest.head? ≠ some '\x7b' ∧ text = groups.flatMap braced ++ rest) ∨
        ∃ tail, StaysOpen 0 tail ∧ text = groups.flatMap braced ++ '\x7b' :: tail) := by
  by_cases hstart : text.head? = some '\x7b'
  · obtain ⟨cs, rfl⟩ := List.head?_eq_some_iff.1 hstart
    by_cases hopen : StaysOpen 0 cs
    · exact ⟨[], by simp, .inr ⟨cs, hopen, rfl⟩⟩
    · obtain ⟨inner, text, rfl, hinner⟩ := exists_end hopen
      obtain ⟨groups, hgroups, hrest⟩ := exists_groups text
      refine ⟨inner :: groups, List.forall_mem_cons.2 ⟨balanced_iff.2 hinner, hgroups⟩, ?_⟩
      rw [← braced_append, List.flatMap_cons]
      rcases hrest with ⟨rest, hne, rfl⟩ | ⟨tail, htail, rfl⟩
      · exact .inl ⟨rest, hne, (List.append_assoc ..).symm⟩
      · exact .inr ⟨tail, htail, (List.append_assoc ..).symm⟩
  · exact ⟨[], by simp, .inl ⟨text, hstart, rfl⟩⟩
termination_by text.length
decreasing_by
  subst_vars
  simp
  omega

theorem split_append {text : List Char} (hleading : '\x7b' ∉ leading)
    (htext : ∀ c ∈ text.head?, c = '\x7b') : split (leading ++ text) = match adjacent text with
      | .ok (groups, rest) => .ok { leading, groups, rest }
      | .error u => .error ⟨leading ++ u.before⟩ := by
  have hpass : ∀ c ∈ leading, decide (c ≠ '\x7b') = true := fun c hc =>
    decide_eq_true fun h => hleading (h ▸ hc)
  have hstop : text.takeWhile (decide <| · ≠ '\x7b') = [] ∧
      text.dropWhile (decide <| · ≠ '\x7b') = text := by
    cases text with
    | nil => exact ⟨rfl, rfl⟩
    | cons c text => simp [htext c rfl]
  have hstart : (leading ++ text).takeWhile (decide <| · ≠ '\x7b') = leading := by
    rw [List.takeWhile_append_of_pos hpass, hstop.1, List.append_nil]
  have hrest : (leading ++ text).dropWhile (decide <| · ≠ '\x7b') = text := by
    rw [List.dropWhile_append_of_pos hpass, hstop.2]
  cases htail : adjacent text with
  | ok r => simp only [split, hstart, hrest, htail]
  | error u => simp only [split, hstart, hrest, htail]

/-! ## Forms -/

/-- How a text can be made up. -/
inductive Form where
  /-- It has no groups. -/
  | plain (text : List Char)
  /-- Some text, then groups, and some text that does not go on with them. -/
  | closed (leading : List Char) (groups : List (List Char)) (rest : List Char)
  /-- Some text, then groups, of which there may be none, and then the start of a
      group that goes on to the end of the text. -/
  | unclosed (leading : List Char) (groups : List (List Char)) (tail : List Char)

namespace Form

/-- The text that is made up so. -/
def text : Form → List Char
  | .plain text => text
  | .closed leading groups rest => leading ++ groups.flatMap braced ++ rest
  | .unclosed leading groups tail => leading ++ groups.flatMap braced ++ '\x7b' :: tail

/-- The parts are what the form says that they are. In a balanced text as many
    braces are closed as are opened, and nowhere more (`balanced_iff`); in the tail of
    a group that is not closed there are nowhere more. -/
def WellFormed : Form → Prop
  | .plain text => '\x7b' ∉ text
  | .closed leading groups rest =>
    '\x7b' ∉ leading ∧ groups ≠ [] ∧ (∀ g ∈ groups, Balanced g) ∧ rest.head? ≠ some '\x7b'
  | .unclosed leading groups tail =>
    '\x7b' ∉ leading ∧ (∀ g ∈ groups, Balanced g) ∧ StaysOpen 0 tail

/-- What splitting a text of this form comes to. -/
def split : Form → Except Unclosed Split
  | .plain text => .ok { leading := text, groups := [], rest := [] }
  | .closed leading groups rest => .ok { leading, groups, rest }
  | .unclosed leading groups _ => .error ⟨leading ++ groups.flatMap braced⟩

/-- What is told of a text of this form: the texts of its groups and the number of
    bytes that are used up, or the byte at which a group opens that is not closed. -/
def outcome : Form → Except Nat (List (List Char) × Nat)
  | .plain text => .ok ([], utf8Size text)
  | .closed leading groups _ => .ok (groups, utf8Size (leading ++ groups.flatMap braced))
  | .unclosed leading groups _ => .error (utf8Size (leading ++ groups.flatMap braced))

end Form

/-- What is told of a text when it is split, places in it in bytes. -/
def outcome (text : List Char) : Except Nat (List (List Char) × Nat) :=
  match split text with
  | .ok s => .ok (s.groups, utf8Size s.consumed)
  | .error u => .error (utf8Size u.before)

theorem head?_braced {inner : List Char} (text : List Char) :
    (braced inner ++ text).head? = some '\x7b' := by
  simp [braced]

/-- Groups that are closed and a text after them that starts none. -/
theorem split_groups (hleading : '\x7b' ∉ leading) (hgroups : ∀ g ∈ groups, Balanced g)
    (hrest : rest.head? ≠ some '\x7b') (hne : groups = [] → rest = []) :
    split (leading ++ groups.flatMap braced ++ rest) = .ok { leading, groups, rest } := by
  have hstart : ∀ c ∈ (groups.flatMap braced ++ rest).head?, c = '\x7b' := by
    cases groups with
    | nil => simp [hne rfl]
    | cons g groups =>
      rw [List.flatMap_cons, List.append_assoc, head?_braced]
      simp
  rw [List.append_assoc, split_append hleading hstart, adjacent_groups hgroups,
    adjacent_of_head?_ne hrest]
  simp only [List.append_nil]

/-- Nothing comes after the groups. -/
theorem split_groups_nil (hleading : '\x7b' ∉ leading) (hgroups : ∀ g ∈ groups, Balanced g) :
    split (leading ++ groups.flatMap braced) = .ok { leading, groups, rest := [] } := by
  rw [← split_groups hleading hgroups (by simp) fun _ => rfl, List.append_nil]

/-- Groups that are closed and one after them that is not. -/
theorem split_unclosed (hleading : '\x7b' ∉ leading) (hgroups : ∀ g ∈ groups, Balanced g)
    (htail : StaysOpen 0 tail) :
    split (leading ++ groups.flatMap braced ++ '\x7b' :: tail) =
      .error ⟨leading ++ groups.flatMap braced⟩ := by
  have hstart : ∀ c ∈ (groups.flatMap braced ++ '\x7b' :: tail).head?, c = '\x7b' := by
    cases groups with
    | nil => simp
    | cons g groups =>
      rw [List.flatMap_cons, List.append_assoc, head?_braced]
      simp
  rw [List.append_assoc, split_append hleading hstart, adjacent_groups hgroups,
    adjacent_open htail]
  simp only [List.append_nil]

namespace Form

variable {form other : Form}

theorem split_text (h : form.WellFormed) : Groups.split form.text = form.split := by
  cases form with
  | plain text =>
    have hsplit : Groups.split (text ++ [].flatMap braced) =
        .ok { leading := text, groups := [], rest := [] } :=
      split_groups_nil h (by simp)
    rwa [List.flatMap_nil, List.append_nil] at hsplit
  | closed leading groups rest =>
    obtain ⟨hleading, hne, hgroups, hrest⟩ := h
    exact split_groups hleading hgroups hrest fun hnil => absurd hnil hne
  | unclosed leading groups tail =>
    obtain ⟨hleading, hgroups, htail⟩ := h
    exact split_unclosed hleading hgroups htail

theorem outcome_text (h : form.WellFormed) : Groups.outcome form.text = form.outcome := by
  rw [Groups.outcome, split_text h]
  cases form with
  | plain text => simp [Form.split, Form.outcome, Split.consumed]
  | closed leading groups rest => rfl
  | unclosed leading groups tail => rfl

/-- Every text has a form. -/
theorem exists_form (text : List Char) : ∃ form : Form, form.WellFormed ∧ form.text = text := by
  by_cases hplain : '\x7b' ∈ text
  · obtain ⟨leading, cs, rfl, hleading⟩ := List.eq_append_cons_of_mem hplain
    obtain ⟨groups, hgroups, ⟨rest, hrest, hcs⟩ | ⟨tail, htail, hcs⟩⟩ :=
      exists_groups ('\x7b' :: cs)
    · -- The brace starts a group, as no brace comes after the groups.
      have hne : groups ≠ [] := by
        rintro rfl
        exact hrest (by rw [← List.nil_append rest, ← List.flatMap_nil, ← hcs, List.head?_cons])
      exact ⟨.closed leading groups rest, ⟨hleading, hne, hgroups, hrest⟩, by
        rw [Form.text, hcs, List.append_assoc]⟩
    · exact ⟨.unclosed leading groups tail, ⟨hleading, hgroups, htail⟩, by
        rw [Form.text, hcs, List.append_assoc]⟩
  · exact ⟨.plain text, hplain, rfl⟩

/-- Some text and groups after it can be told from each other. -/
theorem append_braced_inj {leading' : List Char} {groups' : List (List Char)}
    (hleading : '\x7b' ∉ leading) (hleading' : '\x7b' ∉ leading')
    (hgroups : ∀ g ∈ groups, Balanced g) (hgroups' : ∀ g ∈ groups', Balanced g)
    (h : leading ++ groups.flatMap braced = leading' ++ groups'.flatMap braced) :
    leading = leading' ∧ groups = groups' := by
  have hsplit := split_groups_nil hleading hgroups
  rw [h, split_groups_nil hleading' hgroups'] at hsplit
  simpa [eq_comm] using hsplit

/-- No text has two forms. -/
theorem eq_of_text_eq (h : form.WellFormed) (h' : other.WellFormed)
    (htext : form.text = other.text) : form = other := by
  have hsplit : form.split = other.split := by
    rw [← split_text h, ← split_text h', htext]
  cases form with
  | plain text =>
    cases other with
    | plain text' => exact congrArg _ htext
    | closed leading' groups' rest' =>
      obtain ⟨_, hnil, _⟩ := Split.mk.inj (Except.ok.inj hsplit)
      exact absurd hnil.symm h'.2.1
    | unclosed => simp [Form.split] at hsplit
  | closed leading groups rest =>
    cases other with
    | plain text' =>
      obtain ⟨_, hnil, _⟩ := Split.mk.inj (Except.ok.inj hsplit)
      exact absurd hnil h.2.1
    | closed leading' groups' rest' =>
      obtain ⟨rfl, rfl, rfl⟩ := Split.mk.inj (Except.ok.inj hsplit)
      rfl
    | unclosed => simp [Form.split] at hsplit
  | unclosed leading groups tail =>
    cases other with
    | plain => simp [Form.split] at hsplit
    | closed => simp [Form.split] at hsplit
    | unclosed leading' groups' tail' =>
      have hbefore := Unclosed.mk.inj (Except.error.inj hsplit)
      obtain ⟨rfl, rfl⟩ := append_braced_inj h.1 h'.1 h.2.1 h'.2.1 hbefore
      obtain ⟨_, rfl⟩ := List.cons.inj (List.append_cancel_left htext)
      rfl

end Form

/-- Every text has one form and no other, and what is told of it is what that form
    says. -/
theorem existsUnique_form (text : List Char) : ∃ form : Form,
    form.WellFormed ∧ form.text = text ∧
      (∀ other : Form, other.WellFormed → other.text = text → other = form) ∧
      outcome text = form.outcome := by
  obtain ⟨form, hform, rfl⟩ := Form.exists_form text
  exact ⟨form, hform, rfl, fun other hother htext => Form.eq_of_text_eq hother hform htext,
    Form.outcome_text hform⟩

/-- A stray closing brace ends the groups, and places are told in bytes. -/
example : outcome "\\é\x7bü\x7ba\x7d\x7d\x7b\x7d\x7d\x7bb\x7d".toList =
    .ok (["ü\x7ba\x7d".toList, []], 12) := by
  decide +kernel

example : outcome "\x7da\x7bü\x7d\x7b\x7bb\x7d".toList = .error 6 := by
  decide +kernel

end PaperGraph.Groups
