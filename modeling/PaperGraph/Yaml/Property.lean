import PaperGraph.Text.Digits
import PaperGraph.Yaml.Spot
import PaperGraph.Yaml.Token

/-!
# Anchors, tags and directives

Words with a grammar of their own: names of anchors, tags with their handles,
in which bytes can be written by a percent sign and two digits, and the
directives before a document.
-/

namespace PaperGraph.Yaml

/-- Whether a character may stand in a name. -/
def isNameChar (c : Char) : Bool :=
  c.isAlphanum || c = '-' || c = '_'

/-- The longest name here, and what is left. -/
def readName (text : List Spot) : String × List Spot :=
  (String.ofList ((text.takeWhile (isNameChar ·.char)).map (·.char)),
    text.dropWhile (isNameChar ·.char))

/-- Whether a character may stand right after the name of an anchor. -/
def endsAnchor (text : List Spot) : Bool :=
  atWordEnd text || nextIs (fun c => "?:,]\x7d%@`".toList.contains c) text

/-- The name of an anchor, and what is left. -/
def readAnchor? (text : List Spot) : Option (String × List Spot) :=
  let (name, rest) := readName text
  if name ≠ "" ∧ endsAnchor rest then some (name, rest) else none

/-- A byte written by a percent sign and two digits, and what is left. -/
def readByte? : List Spot → Option (Nat × List Spot)
  | p :: a :: b :: rest =>
    if p.char = '%' then (Text.number? 16 [a.char, b.char]).map (·, rest) else none
  | _ => none

/-- The number of bytes of a character whose first byte is given, and the bits
    of that byte that belong to its code point. -/
def leadingByte? (byte : Nat) : Option (Nat × Nat) :=
  if byte < 0x80 then some (1, byte)
  else if byte < 0xc0 then none
  else if byte < 0xe0 then some (2, byte - 0xc0)
  else if byte < 0xf0 then some (3, byte - 0xe0)
  else if byte < 0xf8 then some (4, byte - 0xf0)
  else none

/-- The code point of a character of which `count` bytes are missing, and what
    is left. -/
def readTrailingBytes? : (count code : Nat) → List Spot → Option (Nat × List Spot)
  | 0, code, text => some (code, text)
  | count + 1, code, text => do
    let (byte, rest) ← readByte? text
    if 0x80 ≤ byte ∧ byte < 0xc0 then readTrailingBytes? count (code * 0x40 + (byte - 0x80)) rest
    else none

/-- A character written by its bytes, and what is left. A character that there
    is not is taken for the replacement character. -/
def readEscapedChar? (text : List Spot) : Option (Char × List Spot) := do
  let (byte, rest) ← readByte? text
  let (count, bits) ← leadingByte? byte
  let (code, rest) ← readTrailingBytes? (count - 1) bits rest
  return ((Text.charOf? code).getD '\ufffd', rest)

/-- Whether a character may stand in a tag. The characters that structure flow
    collections may only stand in tags that have an end of their own. -/
def isTagChar (closed : Bool) (c : Char) : Bool :=
  isNameChar c || ";/?:@&=+$.%!~*'()".toList.contains c || (closed && ",[]".toList.contains c)

/-- The longest text of a tag here, and what is left. `fuel` bounds the number
    of its characters. -/
def readTagChars? (closed : Bool) : (fuel : Nat) → List Spot → Option (List Char × List Spot)
  | fuel + 1, s :: rest =>
    if isTagChar closed s.char then do
      let (c, rest) ← if s.char = '%' then readEscapedChar? (s :: rest) else some (s.char, rest)
      let (cs, rest) ← readTagChars? closed fuel rest
      return (c :: cs, rest)
    else some ([], s :: rest)
  | _, text => some ([], text)

/-- The longest text of a tag here, and what is left. -/
def readTagText? (closed : Bool) (text : List Spot) : Option (String × List Spot) :=
  (readTagChars? closed text.length text).map fun (cs, rest) => (String.ofList cs, rest)

/-- Two exclamation marks with a name between them, or an exclamation mark with
    a name after it; whether it is the former; and what is left. -/
def readHandle? : List Spot → Option (String × Bool × List Spot)
  | s :: rest =>
    if s.char = '!' then
      let (name, rest) := readName rest
      match rest with
      | t :: rest' =>
        if t.char = '!' then some ("!" ++ name ++ "!", true, rest')
        else some ("!" ++ name, false, rest)
      | [] => some ("!" ++ name, false, [])
    else none
  | [] => none

/-- A tag in angle brackets, of which the first is read, and what is left. -/
def readClosedTag? (text : List Spot) : Option (Token × List Spot) := do
  let (suffix, rest) ← readTagText? true text
  match suffix, rest with
  | "", _ => none
  | _, s :: rest => if s.char = '>' then some (.tag "" suffix, rest) else none
  | _, [] => none

/-- A tag with a handle, and what is left. An exclamation mark on its own is a
    tag without a handle. -/
def readOpenTag? (text : List Spot) : Option (Token × List Spot) := do
  let (handle, whole, rest) ← readHandle? text
  let (more, rest) ← readTagText? false rest
  if whole then
    if more = "" then none else some (.tag handle more, rest)
  else
    let suffix := String.ofList (handle.toList.drop 1) ++ more
    if suffix = "" then some (.tag "" "!", rest) else some (.tag "!" suffix, rest)

/-- A tag, and what is left. It is a word, or ends before a comma in a flow
    collection. -/
def readTag? (flow : Bool) (text : List Spot) : Option (Token × List Spot) := do
  let (token, rest) ← match text with
    | _ :: s :: rest => if s.char = '<' then readClosedTag? rest else readOpenTag? text
    | _ => readOpenTag? text
  if atWordEnd rest ∨ (flow ∧ nextIs (· = ',') rest) then some (token, rest) else none

/-- The longest number of a version, in digits. -/
def longestVersion : Nat := 9

/-- A number in a version, and what is left. -/
def readVersionNumber? (text : List Spot) : Option (Nat × List Spot) :=
  let digits := (text.takeWhile (·.char.isDigit)).map (·.char)
  if longestVersion < digits.length then none
  else (Text.number? 10 digits).map (·, text.dropWhile (·.char.isDigit))

/-- What is left after blanks. -/
def skipGap (text : List Spot) : List Spot :=
  text.dropWhile (isGap ·.char)

/-- A directive for the version, its name having been read, and what is left. -/
def readVersion? (text : List Spot) : Option (Token × List Spot) := do
  let (major, rest) ← readVersionNumber? (skipGap text)
  match rest with
  | s :: rest =>
    if s.char = '.' then
      let (minor, rest) ← readVersionNumber? rest
      return (.version major minor, rest)
    else none
  | [] => none

/-- A directive for a handle, its name having been read, and what is left. -/
def readHandleDirective? (text : List Spot) : Option (Token × List Spot) := do
  let (handle, whole, rest) ← readHandle? (skipGap text)
  if ¬ whole ∧ handle ≠ "!" then none
  else if ¬ nextIs isGap rest then none
  else
    let (expansion, rest) ← readTagText? true (skipGap rest)
    if expansion ≠ "" ∧ atWordEnd rest then some (.handle handle expansion, rest) else none

/-- A directive after its percent sign, with its line, and what is left. -/
def readDirective? (text : List Spot) : Option (Token × List Spot) := do
  let (name, rest) := readName text
  let (token, rest) ←
    if ¬ atWordEnd rest then none
    else match name with
      | "YAML" => readVersion? rest
      | "TAG" => readHandleDirective? rest
      | _ => none
  return (token, ← finishLine? rest)

end PaperGraph.Yaml
