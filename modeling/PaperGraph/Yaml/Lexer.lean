import PaperGraph.Yaml.Block
import PaperGraph.Yaml.Plain
import PaperGraph.Yaml.Property
import PaperGraph.Yaml.Quoted

/-!
# From characters to tokens

A lexer goes through the characters of a text and gathers tokens. Two things
are known later than they are needed. That a scalar, a reference or a flow
collection is the key of a mapping shows only when a colon follows: until then
it is a *possible key*, for which the place in the list of tokens is kept. And
that a block collection has ended shows only in the indentation of what follows
it.

A possible key has to be followed by its colon on the same line and within 1024
characters; one that stands where only a key can stand must be followed by
one.

* `tokens?`: the tokens of a text, if it consists of tokens.
-/

namespace PaperGraph.Yaml

/-- A token that may turn out to start a key. -/
structure PossibleKey where
  /-- Whether it has to. -/
  required : Bool
  /-- The number of tokens before it. -/
  number : Nat
  /-- Where it starts. -/
  spot : Spot
deriving DecidableEq, Repr

/-- The number of characters within which a key is followed by its colon. -/
def longestKey : Nat := 1024

/-- Whether it is too late for a colon. -/
def PossibleKey.isExpired (k : PossibleKey) (s : Spot) : Bool :=
  k.spot.line < s.line || k.spot.index + longestKey < s.index

/-- What is known after some tokens. -/
structure Lexer where
  /-- The tokens, the last one first. -/
  tokens : List Token := []
  /-- The least column of what belongs to the innermost block collection and is
      not one of its entries; 0 if there is no block collection. -/
  margin : Nat := 0
  /-- The same for the collections around it, from within. -/
  outer : List Nat := []
  /-- Whether a key may start here. -/
  keyAllowed : Bool := true
  /-- The possible key in the innermost flow collection. -/
  key : Option PossibleKey := none
  /-- Those in what is around it, from within. -/
  outerKeys : List (Option PossibleKey) := []
deriving Repr

namespace Lexer

/-- Whether a flow collection is open. -/
def inFlow (l : Lexer) : Bool :=
  ! l.outerKeys.isEmpty

/-- One more token. -/
def push (l : Lexer) (t : Token) : Lexer :=
  { l with tokens := t :: l.tokens }

/-- A token put in after the first `number` ones. -/
def insert (l : Lexer) (number : Nat) (t : Token) : Lexer :=
  let later := l.tokens.length - number
  { l with tokens := l.tokens.take later ++ t :: l.tokens.drop later }

/-- A possible key that has not expired, or nothing if it had to become a
    key. -/
def expireKey? (s : Spot) : Option PossibleKey → Option (Option PossibleKey)
  | none => some none
  | some k =>
    if k.isExpired s then if k.required then none else some none
    else some (some k)

/-- Forgets the possible keys that have expired. -/
def expire? (l : Lexer) (s : Spot) : Option Lexer := do
  return { l with key := ← expireKey? s l.key, outerKeys := ← l.outerKeys.mapM (expireKey? s) }

/-- Forgets the possible key, unless it has to become a key. -/
def dropKey? (l : Lexer) : Option Lexer :=
  if l.key.any (·.required) then none else some { l with key := none }

/-- Keeps what comes next as a possible key, where a key is allowed. -/
def saveKey? (l : Lexer) (s : Spot) : Option Lexer := do
  if l.keyAllowed then
    let l ← l.dropKey?
    return { l with
      key := some
        { required := ! l.inFlow && l.margin = s.column + 1
          number := l.tokens.length
          spot := s } }
  else return l

/-- Opens a block collection at a column, if that is further in than those that
    are open. Its token comes last, or after the first `number` ones. -/
def openBlock (l : Lexer) (column : Nat) (t : Token) (number : Nat := l.tokens.length) : Lexer :=
  if ! l.inFlow && l.margin ≤ column then
    { l with outer := l.margin :: l.outer, margin := column + 1 }.insert number t
  else l

/-- Closes the block collections further in than a margin. -/
def closeBlocks (l : Lexer) (margin : Nat) : Lexer :=
  if l.inFlow then l else go l l.outer
where
  /-- Closes the collections, of which those around the innermost are listed. -/
  go (l : Lexer) : List Nat → Lexer
    | [] => l
    | m :: outer =>
      if margin < l.margin then go ({ l with margin := m, outer }.push .blockEnd) outer else l

/-- What a mark of a document, a directive or the end of the text does before
    it. -/
def closeAll? (l : Lexer) : Option Lexer := do
  let l ← (l.closeBlocks 0).dropKey?
  return { l with keyAllowed := false }

/-- An indicator by which an entry, a key or a value of a block collection
    starts, which has to be allowed there. -/
def blockIndicator? (l : Lexer) (s : Spot) (collection : Token) : Option Lexer :=
  if l.inFlow then some l
  else if l.keyAllowed then some (l.openBlock s.column collection)
  else none

/-- A colon, which makes a possible key a key. -/
def value? (l : Lexer) (s : Spot) : Option Lexer :=
  match l.key with
  | some k =>
    let l := (l.insert k.number .key).openBlock k.spot.column .blockMapping k.number
    some ({ l with key := none, keyAllowed := false }.push .value)
  | none => do
    let l ← l.blockIndicator? s .blockMapping
    return { l with keyAllowed := ! l.inFlow }.push .value

/-- Whether a plain scalar can start with a character, what follows being
    `rest`. -/
def startsPlain (l : Lexer) (c : Char) (rest : List Spot) : Bool :=
  if c = '-' then ! nextIs isGap rest
  else if c = '?' || c = ':' then ! l.inFlow && ! atWordEnd rest
  else ! (isGap c || isBreak c || isFlowIndicator c || "#&*!|>'\"%@`".toList.contains c)

/-- A scalar, which can be a key, read by `read`. -/
def scalar? (l : Lexer) (s : Spot) (style : Style) (read : Option (List Char × List Spot)) :
    Option (Lexer × List Spot) := do
  let l ← l.saveKey? s
  let (text, rest) ← read
  return ({ l with keyAllowed := false }.push (.scalar (String.ofList text) style), rest)

/-- The token that starts with a character, and what is left. -/
def token? (l : Lexer) (s : Spot) (rest : List Spot) : Option (Lexer × List Spot) := do
  let text := s :: rest
  if s.column = 0 ∧ s.char = '%' then
    let l ← l.closeAll?
    let (t, rest) ← readDirective? rest
    return (l.push t, rest)
  else if atMarker text then
    let l ← l.closeAll?
    return (l.push (if s.char = '-' then .documentStart else .documentEnd), text.drop 3)
  else if s.char = '[' ∨ s.char = '\x7b' then
    let l ← l.saveKey? s
    let l := { l with key := none, outerKeys := l.key :: l.outerKeys, keyAllowed := true }
    return (l.push (if s.char = '[' then .flowSequence else .flowMapping), rest)
  else if s.char = ']' ∨ s.char = '\x7d' then
    let l ← l.dropKey?
    let l := match l.outerKeys with
      | [] => l
      | key :: outerKeys => { l with key, outerKeys }
    return ({ l with keyAllowed := false }.push
      (if s.char = ']' then .flowSequenceEnd else .flowMappingEnd), rest)
  else if s.char = ',' then
    let l ← l.dropKey?
    return ({ l with keyAllowed := true }.push .flowEntry, rest)
  else if s.char = '-' ∧ atWordEnd rest then
    let l ← (← l.blockIndicator? s .blockSequence).dropKey?
    return ({ l with keyAllowed := true }.push .blockEntry, rest)
  else if s.char = '?' ∧ (l.inFlow ∨ atWordEnd rest) then
    let l ← (← l.blockIndicator? s .blockMapping).dropKey?
    return ({ l with keyAllowed := ! l.inFlow }.push .key, rest)
  else if s.char = ':' ∧ (l.inFlow ∨ atWordEnd rest) then
    return (← l.value? s, rest)
  else if s.char = '*' ∨ s.char = '&' then
    let l ← l.saveKey? s
    let (name, rest) ← readAnchor? rest
    return ({ l with keyAllowed := false }.push
      (if s.char = '*' then .reference name else .anchor name), rest)
  else if s.char = '!' then
    let l ← l.saveKey? s
    let (t, rest) ← readTag? l.inFlow text
    return ({ l with keyAllowed := false }.push t, rest)
  else if (s.char = '|' ∨ s.char = '>') ∧ ¬ l.inFlow then
    let l ← l.dropKey?
    let (text, rest) ← readBlock? (s.char = '>') l.margin rest
    return ({ l with keyAllowed := true }.push
      (.scalar (String.ofList text) (if s.char = '|' then .literal else .folded)), rest)
  else if s.char = '\'' then l.scalar? s .quoted (readSingle Gap.none rest)
  else if s.char = '"' then l.scalar? s .quoted (readDouble Gap.none rest)
  else if l.startsPlain s.char rest then
    let l ← l.saveKey? s
    let (chars, ending, rest) ← readPlain l.inFlow l.margin Gap.none text
    return ({ l with keyAllowed := ending.isFolded }.push
      (.scalar (String.ofList chars) .plain), rest)
  else none

/-- What is left after blanks, comments and line ends, and whether a key may
    start there. Where a key may start, tabs are no blanks. -/
def skip (inFlow : Bool) : (keyAllowed comment : Bool) → List Spot → Bool × List Spot
  | keyAllowed, _, [] => (keyAllowed, [])
  | keyAllowed, comment, s :: rest =>
    if isBreak s.char then skip inFlow (keyAllowed || ! inFlow) false rest
    else if comment then skip inFlow keyAllowed true rest
    else if s.char = ' ' ∨ (s.char = '\t' ∧ (inFlow ∨ ¬ keyAllowed)) ∨
        (s.index = 0 ∧ s.char = byteOrderMark) then
      skip inFlow keyAllowed false rest
    else if s.char = '#' then skip inFlow keyAllowed true rest
    else (keyAllowed, s :: rest)

/-- Gathers all tokens. `fuel` bounds their number. -/
def run : (fuel : Nat) → Lexer → List Spot → Option Lexer
  | 0, _, _ => none
  | fuel + 1, l, text =>
    match skip l.inFlow l.keyAllowed false text with
    | (_, []) => l.closeAll?
    | (keyAllowed, s :: rest) => do
      let l ← { l with keyAllowed }.expire? s
      let (l, rest) ← (l.closeBlocks (s.column + 1)).token? s rest
      run fuel l rest

end Lexer

/-- The tokens of a text, if it consists of tokens. Each of them takes a
    character, but for those that only show the structure. -/
def tokens? (text : List Char) : Option (List Token) := do
  let spots ← spots? text
  let l ← Lexer.run (spots.length + 1) {} spots
  return l.tokens.reverse

end PaperGraph.Yaml
