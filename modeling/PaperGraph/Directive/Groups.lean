import PaperGraph.Text.Measure

/-!
# Groups in braces

The arguments of a directive are groups in braces, one right after the other.
Braces inside a group are balanced. What stands before the first group is passed
over, a closing brace included, and a text without groups is passed over as a
whole.

* `Groups.Balanced`: the texts that may stand in a group;
* `Groups.close?`: the text of a group and what follows it;
* `Groups.split`: the groups at the start of a text, or the last one of them
  that is not closed.

Splitting loses nothing (`Split.source`), and something of a text that is not
empty is used up (`length_rest_lt`).
-/

namespace PaperGraph.Groups

open Text

/-- Texts in which every brace has its partner. -/
inductive Balanced : List Char → Prop
  /-- The empty text. -/
  | nil : Balanced []
  /-- A character that is no brace, before a balanced text. -/
  | char {c : Char} {cs : List Char} : c ≠ '\x7b' → c ≠ '\x7d' → Balanced cs → Balanced (c :: cs)
  /-- A group before a balanced text. -/
  | group {inner cs : List Char} : Balanced inner → Balanced cs →
      Balanced ('\x7b' :: inner ++ '\x7d' :: cs)

/-- The text up to the brace that closes it, and what follows that brace.
    `depth` counts the open braces that come before that one's partner. -/
def close? : (depth : Nat) → List Char → Option (List Char × List Char)
  | _, [] => none
  | depth, c :: cs =>
    if c = '\x7b' then (close? (depth + 1) cs).map fun (inner, rest) => (c :: inner, rest)
    else if c = '\x7d' then
      match depth with
      | 0 => some ([], cs)
      | depth + 1 => (close? depth cs).map fun (inner, rest) => (c :: inner, rest)
    else (close? depth cs).map fun (inner, rest) => (c :: inner, rest)

theorem eq_of_close? {depth : Nat} {cs inner rest : List Char}
    (h : close? depth cs = some (inner, rest)) : cs = inner ++ '\x7d' :: rest := by
  induction cs generalizing depth inner rest with
  | nil => simp [close?] at h
  | cons c cs ih =>
    have longer : ∀ depth, (close? depth cs).map (fun (i, r) => (c :: i, r)) = some (inner, rest) →
        c :: cs = inner ++ '\x7d' :: rest := by
      intro depth h
      obtain ⟨⟨i, r⟩, hi, he⟩ := Option.map_eq_some_iff.1 h
      simp only [Prod.mk.injEq] at he
      obtain ⟨rfl, rfl⟩ := he
      simp [ih hi]
    simp only [close?] at h
    split at h
    · exact longer _ h
    · split at h
      · split at h
        · simp_all
        · exact longer _ h
      · exact longer _ h

/-- A text split at the groups that it starts with. -/
structure Split where
  /-- What was passed over before the first group. -/
  leading : List Char
  /-- The texts of the groups. -/
  groups : List (List Char)
  /-- What follows the last group. -/
  rest : List Char
deriving DecidableEq, Repr

/-- A text in braces. -/
def braced (inner : List Char) : List Char :=
  '\x7b' :: inner ++ ['\x7d']

/-- What was split off: the leading text and the groups. -/
def Split.consumed (s : Split) : List Char :=
  s.leading ++ s.groups.flatMap braced

/-- The text that was split. -/
def Split.source (s : Split) : List Char :=
  s.consumed ++ s.rest

/-- A group that is not closed. -/
structure Unclosed where
  /-- The text before its opening brace. -/
  before : List Char
deriving DecidableEq, Repr

/-- The groups at the very start of a text, and what follows them. -/
def adjacent : (text : List Char) → Except Unclosed (List (List Char) × List Char)
  | [] => .ok ([], [])
  | c :: cs =>
    if c = '\x7b' then
      match _h : close? 0 cs with
      | none => .error ⟨[]⟩
      | some (inner, rest) =>
        match adjacent rest with
        | .ok (groups, rest) => .ok (inner :: groups, rest)
        | .error u => .error ⟨braced inner ++ u.before⟩
    else .ok ([], c :: cs)
termination_by text => text.length
decreasing_by
  simp [eq_of_close? _h]
  omega

/-- The groups of a text after what comes before its first opening brace. -/
def split (text : List Char) : Except Unclosed Split :=
  let leading := text.takeWhile (· ≠ '\x7b')
  match adjacent (text.dropWhile (· ≠ '\x7b')) with
  | .ok (groups, rest) => .ok { leading, groups, rest }
  | .error u => .error ⟨leading ++ u.before⟩

theorem source_adjacent {text : List Char} {groups : List (List Char)} {rest : List Char}
    (h : adjacent text = .ok (groups, rest)) : groups.flatMap braced ++ rest = text := by
  fun_induction adjacent text generalizing groups rest with
  | case1 => simp_all
  | case2 => simp at h
  | case3 cs inner r hclose gs r' hrest ih =>
    simp only [Except.ok.injEq, Prod.mk.injEq] at h
    obtain ⟨rfl, rfl⟩ := h
    simp [braced, ih hrest, eq_of_close? hclose]
  | case4 => simp at h
  | case5 => simp_all

/-- Splitting loses nothing. -/
theorem source_split {text : List Char} {s : Split} (h : split text = .ok s) :
    s.source = text := by
  simp only [split] at h
  split at h
  · next hadj =>
    simp only [Except.ok.injEq] at h
    subst h
    simp only [Split.source, Split.consumed, List.append_assoc, source_adjacent hadj]
    exact List.takeWhile_append_dropWhile
  · simp at h

/-- A text that starts with an opening brace has a first group. -/
theorem groups_ne_nil_of_adjacent {cs : List Char} {groups : List (List Char)} {rest : List Char}
    (h : adjacent ('\x7b' :: cs) = .ok (groups, rest)) : groups ≠ [] := by
  rw [adjacent] at h
  simp only [↓reduceIte] at h
  split at h
  · simp at h
  · split at h
    · simp_all
      simp [← h.1]
    · simp at h

/-- Something of a text that is not empty is used up. -/
theorem length_rest_lt {text : List Char} {s : Split} (h : split text = .ok s)
    (hne : text ≠ []) : s.rest.length < text.length := by
  have hsource := source_split h
  rw [← hsource]
  suffices s.consumed ≠ [] by
    have := List.length_pos_iff.2 this
    simp only [Split.source, List.length_append]
    omega
  cases text with
  | nil => exact absurd rfl hne
  | cons c cs =>
    simp only [split] at h
    split at h
    · next groups rest hadj =>
      simp only [Except.ok.injEq] at h
      subst h
      by_cases hc : c = '\x7b'
      · subst hc
        have := groups_ne_nil_of_adjacent (by simpa using hadj)
        cases groups with
        | nil => exact absurd rfl this
        | cons g gs => simp [Split.consumed, braced]
      · simp [Split.consumed, hc]
    · simp at h

end PaperGraph.Groups
