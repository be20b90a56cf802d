/-!
# Blank characters

The characters that separate words: those with the Unicode property
`White_Space`, twenty-five in all. Trimming takes them away at the ends of a
text.

* `isBlank`: the property;
* `trimStart`, `trimEnd`, `trim`: a text without the blanks at its ends.
-/

namespace PaperGraph.Text

/-- The Unicode property `White_Space`. -/
def isBlank (c : Char) : Bool :=
  let n := c.toNat
  (0x09 ≤ n && n ≤ 0x0d) || n == 0x20 || n == 0x85 || n == 0xa0 || n == 0x1680 ||
    (0x2000 ≤ n && n ≤ 0x200a) || n == 0x2028 || n == 0x2029 || n == 0x202f ||
    n == 0x205f || n == 0x3000

/-- The text from its first character that is not blank. -/
def trimStart (cs : List Char) : List Char :=
  cs.dropWhile isBlank

/-- The text up to its last character that is not blank. -/
def trimEnd (cs : List Char) : List Char :=
  (cs.reverse.dropWhile isBlank).reverse

/-- The text without the blanks at its two ends. -/
def trim (cs : List Char) : List Char :=
  trimEnd (trimStart cs)

theorem trimStart_cons_of_blank {c : Char} {cs : List Char} (h : isBlank c) :
    trimStart (c :: cs) = trimStart cs := by
  simp [trimStart, h]

theorem trimStart_cons_of_not_blank {c : Char} {cs : List Char} (h : ¬ isBlank c) :
    trimStart (c :: cs) = c :: cs := by
  simp [trimStart, h]

end PaperGraph.Text
