import PaperGraph.Text.Digits
import PaperGraph.Yaml.Spot

/-!
# Block scalars

A block scalar is made of the lines that are indented below its header. Literal
ones keep their line ends; in folded ones a single line end between two lines
that do not start with a blank becomes a space. The header can tell the
indentation, which otherwise is that of the first line, and what becomes of the
line ends after the last line (`Chomp`).
-/

namespace PaperGraph.Yaml

/-- What becomes of the line ends after the last line of a block scalar. -/
inductive Chomp where
  /-- All are dropped. -/
  | strip
  /-- One is kept. -/
  | clip
  /-- All are kept. -/
  | keep
deriving DecidableEq, Repr

/-- What the header of a block scalar tells. -/
structure BlockHeader where
  /-- What becomes of the last line ends. -/
  chomp : Chomp
  /-- By how much the lines are indented, or 0 if that is not told. -/
  indent : Nat
deriving DecidableEq, Repr

/-- The sign for what becomes of the last line ends, if there is one. -/
def readChomp? : List Spot → Option (Chomp × List Spot)
  | s :: rest =>
    if s.char = '+' then some (.keep, rest)
    else if s.char = '-' then some (.strip, rest)
    else none
  | [] => none

/-- The digit for the indentation, which must not be 0; or 0 if there is
    none. -/
def readIndent? : List Spot → Option (Nat × List Spot)
  | s :: rest =>
    match Text.digit? 10 s.char with
    | some 0 => none
    | some n => some (n, rest)
    | none => some (0, s :: rest)
  | [] => some (0, [])

/-- The header of a block scalar, and what is left after its line. -/
def readBlockHeader? (text : List Spot) : Option (BlockHeader × List Spot) := do
  let (header, rest) ← match readChomp? text with
    | some (chomp, rest) => do
      let (indent, rest) ← readIndent? rest
      some ({ chomp, indent : BlockHeader }, rest)
    | none => do
      let (indent, rest) ← readIndent? text
      match readChomp? rest with
      | some (chomp, rest) => some ({ chomp, indent : BlockHeader }, rest)
      | none => some ({ chomp := .clip, indent : BlockHeader }, rest)
  return (header, ← finishLine? rest)

/-- The line ends before the next line that is not empty; the widest indentation
    on the way; and what is left, from that line's text on. Lines are indented
    by `indent`, or by as many spaces as there are if `indent` is 0. Tabs do not
    indent. -/
def readEmptyLines? (indent : Nat) : List Spot → Option (List Char × Nat × List Spot)
  | [] => some ([], 0, [])
  | s :: rest =>
    let indenting := indent = 0 ∨ s.column < indent
    if indenting ∧ s.char = ' ' then readEmptyLines? indent rest
    else if indenting ∧ s.char = '\t' then none
    else if isBreak s.char then
      (readEmptyLines? indent rest).map fun (ends, widest, left) =>
        (s.char :: ends, max s.column widest, left)
    else some ([], s.column, s :: rest)

theorem length_of_readEmptyLines? {indent : Nat} {text left : List Spot} {ends : List Char}
    {widest : Nat} (h : readEmptyLines? indent text = some (ends, widest, left)) :
    left.length ≤ text.length := by
  induction text generalizing ends widest left with
  | nil => simp_all [readEmptyLines?]
  | cons s rest ih =>
    simp only [readEmptyLines?] at h
    split at h
    · have := ih h
      simp only [List.length_cons]
      omega
    · split at h
      · simp at h
      · split at h
        · obtain ⟨⟨e, w, l⟩, hr, he⟩ := Option.map_eq_some_iff.1 h
          simp only [Prod.mk.injEq] at he
          have := ih hr
          simp only [List.length_cons, ← he.2.2]
          omega
        · simp only [Option.some.injEq, Prod.mk.injEq] at h
          simp [← h.2.2]

/-- What separates two lines in the scalar, where `before` is the end of the
    first one and `blank` tells whether one of them starts with a blank. -/
def blockJoint (folded blank : Bool) (before empties : List Char) : List Char :=
  if folded && ! blank && before = ['\n'] then
    if empties = [] then [' '] else empties
  else before ++ empties

/-- A line end, if one is next, and what is left. -/
def takeBreak : List Spot → List Char × List Spot
  | [] => ([], [])
  | s :: rest => ([s.char], rest)

theorem length_takeBreak (text : List Spot) : (takeBreak text).2.length ≤ text.length - 1 := by
  cases text <;> simp [takeBreak]

/-- The lines of a block scalar, the line ends after the last one, and what is
    left. The line ends `before` and `empties` come before the first line, and
    `blank` tells whether the line before that starts with a blank. -/
def readBlockLines? (folded : Bool) (indent : Nat) (before empties : List Char) (blank : Bool)
    (text : List Spot) : Option (List Char × (List Char × List Char) × List Spot) :=
  match text with
  | [] => some ([], (before, empties), [])
  | s :: rest =>
    if s.column ≠ indent then some ([], (before, empties), s :: rest)
    else
      let starts := isGap s.char
      let joint := blockJoint folded (blank || starts) before empties
      let line := ((s :: rest).takeWhile (! isBreak ·.char)).map (·.char)
      let ending := takeBreak ((s :: rest).dropWhile (! isBreak ·.char))
      match _h : readEmptyLines? indent ending.2 with
      | none => none
      | some (more, _, left) =>
        (readBlockLines? folded indent ending.1 more starts left).map fun (lines, last, left) =>
          (joint ++ line ++ lines, last, left)
termination_by text.length
decreasing_by
  have h₁ := length_of_readEmptyLines? _h
  have h₂ : ending.2.length ≤ _ := length_takeBreak _
  have h₃ := (List.dropWhile_suffix (l := s :: rest) (p := fun s => ! isBreak s.char)).length_le
  simp only [List.length_cons] at *
  omega

/-- The text of a block scalar from its header on, and what is left. `margin` is
    the least column of its lines. -/
def readBlock? (folded : Bool) (margin : Nat) (text : List Spot) :
    Option (List Char × List Spot) := do
  let (header, text) ← readBlockHeader? text
  let told := if header.indent = 0 then 0 else margin - 1 + header.indent
  let (empties, widest, text) ← readEmptyLines? told text
  let indent := if told = 0 then max widest (max margin 1) else told
  let (lines, (last, more), text) ← readBlockLines? folded indent [] empties false text
  let ending := match header.chomp with
    | .strip => []
    | .clip => last
    | .keep => last ++ more
  return (lines ++ ending, text)

end PaperGraph.Yaml
