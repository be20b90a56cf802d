/-!
# Characters in their places

A YAML text is read as a list of characters each of which knows its place, so
that a reader needs nothing but the list of what is left. The ways of ending a
line are made one on the way: a carriage return, with or without a newline, and
the character U+0085 count as a newline. The separators U+2028 and U+2029 end a
line too, but stay what they are.

* `spots?`: the characters of a text with their places;
* `atWordEnd`, `atMarker`: what is next in a list of characters.
-/

namespace PaperGraph.Yaml

/-- A character with its place. -/
structure Spot where
  /-- The character. -/
  char : Char
  /-- The number of characters before it. -/
  index : Nat
  /-- The number of lines before it. -/
  line : Nat
  /-- The number of characters before it on its line. -/
  column : Nat
deriving DecidableEq, Repr, Inhabited

/-- Whether a character may stand in a text. -/
def isAllowed (c : Char) : Bool :=
  let n := c.toNat
  n == 0x09 || n == 0x0a || n == 0x0d || (0x20 ≤ n && n ≤ 0x7e) || n == 0x85 ||
    (0xa0 ≤ n && n ≤ 0xd7ff) || (0xe000 ≤ n && n ≤ 0xfffd) || 0x10000 ≤ n

/-- Whether a character ends a line. -/
def isBreak (c : Char) : Bool :=
  c = '\n' || c = '\r' || c = '\u0085' || c = '\u2028' || c = '\u2029'

/-- Whether a character separates words on a line. -/
def isGap (c : Char) : Bool :=
  c = ' ' || c = '\t'

/-- The character that a line end is taken for. -/
def lineEnd (c : Char) : Char :=
  if c = '\u2028' || c = '\u2029' then c else '\n'

/-- The characters of a text whose first one has the given place. -/
def place (index line column : Nat) : List Char → List Spot
  | [] => []
  | '\r' :: '\n' :: rest =>
    { char := '\n', index, line, column } :: place (index + 2) (line + 1) 0 rest
  | c :: rest =>
    if isBreak c then
      { char := lineEnd c, index, line, column } :: place (index + 1) (line + 1) 0 rest
    else { char := c, index, line, column } :: place (index + 1) line (column + 1) rest

/-- The mark that a text may start with. -/
def byteOrderMark : Char := '\ufeff'

/-- The characters of a text, if all of them may stand in one. A byte order
    mark at the start has no place. -/
def spots? (text : List Char) : Option (List Spot) :=
  let text := match text with
    | c :: rest => if c = byteOrderMark then rest else text
    | [] => []
  if text.all isAllowed then some (place 0 0 0 text) else none

/-- The next character. -/
def next? (text : List Spot) : Option Char :=
  text.head?.map (·.char)

/-- Whether a character is next. -/
def nextIs (p : Char → Bool) (text : List Spot) : Bool :=
  (next? text).any p

/-- Whether a word ends here: at a gap, at the end of a line or of the text. -/
def atWordEnd : List Spot → Bool
  | [] => true
  | s :: _ => isGap s.char || isBreak s.char

/-- Whether the line starts here and with three times the character, which are
    a word. -/
def atTriple (c : Char) : List Spot → Bool
  | a :: b :: d :: rest =>
    a.column = 0 && a.char = c && b.char = c && d.char = c && atWordEnd rest
  | _ => false

/-- Whether a mark for the start or the end of a document stands here. -/
def atMarker (text : List Spot) : Bool :=
  atTriple '-' text || atTriple '.' text

/-- What is left of a text after the rest of a line, without its end. -/
def skipLine (text : List Spot) : List Spot :=
  text.dropWhile fun s => ! isBreak s.char

/-- What is left of a text after a comment and the end of its line, if there is
    nothing else on the line. -/
def finishLine? (text : List Spot) : Option (List Spot) :=
  let text := text.dropWhile fun s => isGap s.char
  let text := if nextIs (· = '#') text then skipLine text else text
  match text with
  | [] => some []
  | s :: rest => if isBreak s.char then some rest else none

end PaperGraph.Yaml
