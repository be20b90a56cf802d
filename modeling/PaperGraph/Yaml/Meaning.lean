import PaperGraph.Text.Digits
import PaperGraph.Text.Search

/-!
# What plain scalars mean

A scalar without quotes can be more than a text: nothing, a truth value or a
number. Whoever writes a text that would be taken for one of these has to quote
it (`isAmbiguous`).

* `isNull`, `isTruthValue`, `isNumber`: the words for these;
* `natural?`: the natural number that a word denotes.
-/

namespace PaperGraph.Yaml

open Text

/-- Whether a word denotes nothing. -/
def isNull (word : List Char) : Bool :=
  ["null", "Null", "NULL", "~"].any (·.toList = word)

/-- Whether a word denotes a truth value. -/
def isTruthValue (word : List Char) : Bool :=
  ["true", "True", "TRUE", "false", "False", "FALSE"].any (·.toList = word)

/-- A word without a sign before it. -/
def dropSign : List Char → List Char
  | '+' :: rest => rest
  | '-' :: rest => rest
  | word => word

/-- Whether a word consists of digits and is no number, since it starts with a
    needless zero. -/
def hasNeedlessZero (word : List Char) : Bool :=
  match dropSign word with
  | '0' :: rest => ! rest.isEmpty && rest.all Char.isDigit
  | _ => false

/-- The base of a number that tells it, and the digits. -/
def ofBase? (word : List Char) : Option (Nat × List Char) :=
  match word with
  | '0' :: 'x' :: digits => some (16, digits)
  | '0' :: 'o' :: digits => some (8, digits)
  | '0' :: 'b' :: digits => some (2, digits)
  | _ => none

/-- The number that a word without a sign denotes, up to a greatest one. -/
def magnitude? (greatest : Nat) (word : List Char) : Option Nat :=
  let number := match ofBase? word with
    | some (base, digits) => number? base digits
    | none => if hasNeedlessZero word then none else number? 10 word
  number.filter (· ≤ greatest)

/-- The natural number that a word denotes, up to a greatest one. A plus sign
    may stand before it. -/
def natural? (greatest : Nat) (word : List Char) : Option Nat :=
  magnitude? greatest ((stripStart? ['+'] word).getD word)

/-- Whether a word denotes an integer of 128 bits. -/
def isInteger (word : List Char) : Bool :=
  (natural? (Nat.pow 2 128 - 1) word).isSome ||
    match word with
    | '-' :: rest => (magnitude? (Nat.pow 2 127) rest).isSome
    | _ => false

/-- A decimal number: its digits before and after the point, and its
    exponent. -/
structure Decimal where
  /-- The digits before the point. -/
  whole : List Char
  /-- The digits after it. -/
  part : List Char
  /-- The power of ten by which it is multiplied. -/
  exponent : Int
deriving DecidableEq, Repr

namespace Decimal

/-- The exponent that is written after the digits, if nothing else is. -/
def exponent? : List Char → Option Int
  | [] => some 0
  | e :: rest =>
    if e = 'e' ∨ e = 'E' then
      match number? 10 (dropSign rest), rest.head? with
      | some n, some '-' => some (-n)
      | some n, _ => some n
      | none, _ => none
    else none

/-- The decimal number that a word without a sign denotes. -/
def ofWord? (word : List Char) : Option Decimal := do
  let whole := word.takeWhile Char.isDigit
  let (part, rest) := match word.dropWhile Char.isDigit with
    | '.' :: rest => (rest.takeWhile Char.isDigit, rest.dropWhile Char.isDigit)
    | rest => ([], rest)
  if whole ++ part = [] then none
  return { whole, part, exponent := ← exponent? rest }

/-- The least number that is too great for a binary number of 64 bits. -/
def tooGreat : Nat := Nat.pow 2 1024 - Nat.pow 2 970

/-- Whether the number is not too great for a binary number of 64 bits. A number
    of more than 310 digits before the point is, one of less than 309 is not, and
    numbers between these are compared exactly. -/
def isFinite (d : Decimal) : Bool :=
  let digits := d.whole ++ d.part
  let mantissa := (number? 10 digits).getD 0
  let exponent := d.exponent - d.part.length
  let width : Int := (digits.dropWhile (· = '0')).length + exponent
  if mantissa = 0 ∨ width < 309 then true
  else if 310 < width then false
  else if 0 ≤ exponent then mantissa * Nat.pow 10 exponent.toNat < tooGreat
  else mantissa < tooGreat * Nat.pow 10 (-exponent).toNat

end Decimal

/-- Whether a word denotes infinity, or the value that is no number. -/
def isUnbounded (word : List Char) : Bool :=
  let positive := (stripStart? ['+'] word).getD word
  [".inf", ".Inf", ".INF"].any (·.toList = positive) ||
    ["-.inf", "-.Inf", "-.INF", ".nan", ".NaN", ".NAN"].any (·.toList = word)

/-- Whether a word denotes a number. -/
def isNumber (word : List Char) : Bool :=
  isInteger word || isUnbounded word ||
    (! hasNeedlessZero word && ((Decimal.ofWord? (dropSign word)).any Decimal.isFinite))

/-- Whether a word without quotes would be taken for something else than a
    text, or could be mistaken for a number. -/
def isAmbiguous (word : List Char) : Bool :=
  word.isEmpty || isNull word || isTruthValue word || isNumber word || hasNeedlessZero word

end PaperGraph.Yaml
