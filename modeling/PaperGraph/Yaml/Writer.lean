import PaperGraph.Yaml.Meaning
import PaperGraph.Yaml.Spot

/-!
# Writing scalars

A text is written without quotes if it can be; in single quotes, if it could be
taken for something else or has characters that structure a document; as a
literal block, if it has lines; and in double quotes with escapes, if nothing
else will do.

* `writeScalar`: a text as the value of a key or as an entry of a sequence, up
  to the end of its last line.
-/

namespace PaperGraph.Yaml

open Text

/-- By how much the lines of a scalar are indented. -/
def scalarIndent : List Char := [' ', ' ']

/-- Whether a character can be written as it is. -/
def isPrintable (c : Char) : Bool :=
  isAllowed c && c != '\t' && c != '\r' && c != '\u0085' && c != byteOrderMark

/-- Whether a character separates words. -/
def isSeparator (c : Char) : Bool :=
  isGap c || isBreak c || c = '\x00'

/-- Whether two characters of these sorts stand next to each other. -/
def hasPair (p q : Char → Bool) (text : List Char) : Bool :=
  (text.zip text.tail).any fun (a, b) => p a && q b

/-- Whether there is a character that cannot be written as it is. -/
def isSpecial (text : List Char) : Bool :=
  text.any (! isPrintable ·)

/-- Whether there is a space right before a line end. -/
def hasSpaceBeforeBreak (text : List Char) : Bool :=
  hasPair (· = ' ') isBreak text

/-- Whether there is a space right after a line end. -/
def hasSpaceAfterBreak (text : List Char) : Bool :=
  hasPair isBreak (· = ' ') text

/-- Whether the text starts with what structures a document. -/
def startsWithIndicator : List Char → Bool
  | [] => false
  | c :: rest =>
    "#,[]\x7b\x7d&*!|>'\"%@`".toList.contains c ||
      ("?:-".toList.contains c && rest.head?.all isSeparator) ||
      ['-', '-', '-'].isPrefixOf (c :: rest) || ['.', '.', '.'].isPrefixOf (c :: rest)

/-- Whether the text has what structures a document. -/
def hasIndicator (text : List Char) : Bool :=
  startsWithIndicator text || hasPair (· = ':') isSeparator text || text.getLast? = some ':' ||
    hasPair isSeparator (· = '#') text

/-- Whether the text starts or ends with a space or a line end. -/
def hasOpenEnds (text : List Char) : Bool :=
  (text.head?.any fun c => c = ' ' || isBreak c) ||
    (text.getLast?.any fun c => c = ' ' || isBreak c)

/-- Whether the text can be written without quotes. -/
def canBePlain (text : List Char) : Bool :=
  ! (isSpecial text || text.any isBreak || hasIndicator text || hasOpenEnds text)

/-- Whether the text can be written in single quotes. -/
def canBeSingle (text : List Char) : Bool :=
  ! (isSpecial text || hasSpaceBeforeBreak text || hasSpaceAfterBreak text)

/-- Whether the text can be written as a literal block. -/
def canBeLiteral (text : List Char) : Bool :=
  ! (isSpecial text || hasSpaceBeforeBreak text || text.getLast? = some ' ')

/-- The text with every line after the first indented. `atStart` tells whether a
    line starts here. Empty lines are not indented. -/
def indented (atStart : Bool) : List Char → List Char
  | [] => []
  | c :: rest =>
    if isBreak c then c :: indented true rest
    else (if atStart then scalarIndent else []) ++ c :: indented false rest

/-- The text in single quotes. -/
def writeSingle (text : List Char) : List Char :=
  let inner := indented false (text.flatMap fun c => if c = '\'' then [c, c] else [c])
  let ending := if text.getLast?.any isBreak then scalarIndent else []
  ['\''] ++ inner ++ ending ++ ['\'']

/-- A number in hexadecimal digits, of which there are `width`. -/
def hexadecimal (width n : Nat) : List Char :=
  let digits := (Nat.toDigits 16 n).map Char.toUpper
  List.replicate (width - digits.length) '0' ++ digits

/-- The letter of the short escape of a character. -/
def escapeLetter? (c : Char) : Option Char :=
  [('\x00', '0'), ('\x07', 'a'), ('\x08', 'b'), ('\t', 't'), ('\n', 'n'), ('\x0b', 'v'),
    ('\x0c', 'f'), ('\r', 'r'), ('\x1b', 'e'), ('"', '"'), ('\\', '\\'), ('\u0085', 'N'),
    ('\u00a0', '_'), ('\u2028', 'L'), ('\u2029', 'P')].lookup c

/-- A character in double quotes. -/
def writeEscaped (c : Char) : List Char :=
  if isPrintable c && ! isBreak c && c != '"' && c != '\\' then [c]
  else match escapeLetter? c with
    | some letter => ['\\', letter]
    | none =>
      if c.toNat ≤ 0xff then ['\\', 'x'] ++ hexadecimal 2 c.toNat
      else if c.toNat ≤ 0xffff then ['\\', 'u'] ++ hexadecimal 4 c.toNat
      else ['\\', 'U'] ++ hexadecimal 8 c.toNat

/-- The text in double quotes. -/
def writeDouble (text : List Char) : List Char :=
  ['"'] ++ text.flatMap writeEscaped ++ ['"']

/-- The sign for what becomes of the last line ends of a text. -/
def chompSign (text : List Char) : List Char :=
  match text.reverse with
  | [] => ['-']
  | c :: before =>
    if ! isBreak c then ['-']
    else if before.head?.all isBreak then ['+']
    else []

/-- The text as a literal block. -/
def writeLiteral (text : List Char) : List Char :=
  let indent := if text.head?.any fun c => c = ' ' || isBreak c then ['2'] else []
  ['|'] ++ indent ++ chompSign text ++ ['\n'] ++ indented true text ++
    (if text.getLast?.any isBreak then [] else ['\n'])

/-- A text as a value, up to the end of its last line. -/
def writeScalar (text : String) : String :=
  let cs := text.toList
  String.ofList <|
    if cs.contains '\n' && canBeLiteral cs then writeLiteral cs
    else
      (if cs.contains '\n' then writeDouble cs
        else if canBePlain cs && ! isAmbiguous cs then cs
        else if canBeSingle cs then writeSingle cs
        else writeDouble cs) ++ ['\n']

end PaperGraph.Yaml
