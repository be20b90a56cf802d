import PaperGraph.Text.Digits
import PaperGraph.Yaml.Gap

/-!
# Quoted scalars

In single quotes a quote is written twice, and all else stands for itself. In
double quotes a backslash starts an escape: of one letter, of a code point in
two, four or eight hexadecimal digits, or of the end of the line. In both,
lines are folded and a mark of a document is not allowed.
-/

namespace PaperGraph.Yaml

/-- The text up to the closing single quote, after some gap, and what is
    left. -/
def readSingle (gap : Gap) : List Spot → Option (List Char × List Spot)
  | [] => none
  | s :: rest =>
    if atMarker (s :: rest) then none
    else if isGap s.char ∨ isBreak s.char then readSingle (gap.add s.char) rest
    else if s.char = '\'' then
      match rest with
      | t :: rest' =>
        if t.char = '\'' then
          (readSingle Gap.none rest').map fun (text, left) => (gap.text ++ '\'' :: text, left)
        else some (gap.text, rest)
      | [] => some (gap.text, rest)
    else (readSingle Gap.none rest).map fun (text, left) => (gap.text ++ s.char :: text, left)

/-- The character that an escape of one letter stands for. -/
def letterEscape? : Char → Option Char
  | '0' => some '\x00'
  | 'a' => some '\x07'
  | 'b' => some '\x08'
  | 't' => some '\t'
  | '\t' => some '\t'
  | 'n' => some '\n'
  | 'v' => some '\x0b'
  | 'f' => some '\x0c'
  | 'r' => some '\r'
  | 'e' => some '\x1b'
  | ' ' => some ' '
  | '"' => some '"'
  | '/' => some '/'
  | '\\' => some '\\'
  | 'N' => some '\u0085'
  | '_' => some '\u00a0'
  | 'L' => some '\u2028'
  | 'P' => some '\u2029'
  | _ => none

/-- The number of digits after the letter of an escape by code point. -/
def codeWidth? : Char → Option Nat
  | 'x' => some 2
  | 'u' => some 4
  | 'U' => some 8
  | _ => none

/-- The character that an escape stands for, of which `letter` is the letter and
    `rest` what follows; and the number of digits that it takes. -/
def escaped? (letter : Char) (rest : List Spot) : Option (Char × Nat) :=
  match codeWidth? letter with
  | none => (letterEscape? letter).map (·, 0)
  | some width =>
    let digits := (rest.take width).map (·.char)
    if digits.length = width then
      ((Text.number? 16 digits).bind Text.charOf?).map (·, width)
    else none

/-- The text up to the closing double quote, after some gap, and what is
    left. -/
def readDouble (gap : Gap) : List Spot → Option (List Char × List Spot)
  | [] => none
  | s :: rest =>
    if atMarker (s :: rest) then none
    else if isGap s.char ∨ isBreak s.char then readDouble (gap.add s.char) rest
    else if s.char = '"' then some (gap.text, rest)
    else if s.char = '\\' then
      match rest with
      | [] => none
      | t :: rest =>
        if isBreak t.char then
          (readDouble (.breaks none []) rest).map fun (text, left) => (gap.text ++ text, left)
        else match escaped? t.char rest with
          | none => none
          | some (c, width) =>
            (readDouble Gap.none (rest.drop width)).map fun (text, left) =>
              (gap.text ++ c :: text, left)
    else (readDouble Gap.none rest).map fun (text, left) => (gap.text ++ s.char :: text, left)
termination_by text => text.length
decreasing_by all_goals simp <;> omega

end PaperGraph.Yaml
