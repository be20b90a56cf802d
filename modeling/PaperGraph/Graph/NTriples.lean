import PaperGraph.Graph.Basic
import PaperGraph.Text.Blank
import PaperGraph.Text.Digits
import PaperGraph.Text.Lines
import PaperGraph.Text.Measure

/-!
# N-Triples

N-Triples is the form in which knowledge stores are kept: a statement on every
line, closed by a dot, with whole IRIs in angle brackets and literals in
quotes. Blank lines say nothing, nor does what follows a `#` at the start of a
line or after a statement.

* `NTriples.write`: a graph as text;
* `NTriples.parse`: a text as graph, or the first line that is none (`Fault`);
* `Triple.WellFormed`: the statements that can be written and read again.

Readers take the characters to be read and answer with what they read and with
the characters left.
-/

namespace PaperGraph

open Text

/-- A term without characters that its written form cannot hold. -/
def Term.WellFormed : Term → Prop
  | .iri text => ∀ c ∈ text.toList, c ≠ '>' ∧ c ≠ '\n'
  | .blank label => label ≠ "" ∧ ∀ c ∈ label.toList, ¬ isBlank c
  | .literal _ datatype language =>
    (∀ iri ∈ datatype, ∀ c ∈ iri.toList, c ≠ '>' ∧ c ≠ '\n') ∧
    (∀ tag ∈ language, ∀ c ∈ tag.toList, c.isAlphanum ∨ c = '-') ∧
    (datatype = none ∨ language = none)

/-- A statement about a node whose parts have written forms. -/
def Triple.WellFormed (t : Triple) : Prop :=
  t.subject.isNode ∧ t.subject.WellFormed ∧ (Term.iri t.predicate).WellFormed ∧
    t.object.WellFormed

namespace NTriples

/-! ## Writing -/

/-- A character of a literal, escaped if it has to be. -/
def escapeChar (c : Char) : List Char :=
  match c with
  | '\\' => ['\\', '\\']
  | '"' => ['\\', '"']
  | '\n' => ['\\', 'n']
  | '\r' => ['\\', 'r']
  | '\t' => ['\\', 't']
  | c => [c]

/-- The text of a literal, escaped. -/
def escape (value : String) : String :=
  String.ofList (value.toList.flatMap escapeChar)

/-- A term. A language hides a datatype. -/
def writeTerm : Term → String
  | .iri iri => "<" ++ iri ++ ">"
  | .blank label => "_:" ++ label
  | .literal value datatype language =>
    "\"" ++ escape value ++ "\"" ++
      match language, datatype with
      | some tag, _ => "@" ++ tag
      | none, some iri => "^^<" ++ iri ++ ">"
      | none, none => ""

/-- A statement on a line. -/
def writeTriple (t : Triple) : String :=
  writeTerm t.subject ++ " <" ++ t.predicate ++ "> " ++ writeTerm t.object ++ " .\n"

/-- A graph, its statements in their order. -/
def write (g : Graph) : String :=
  String.join (g.triples.map writeTriple)

/-! ## Reading -/

/-- What is wrong with a line. -/
inductive Problem where
  /-- There is no IRI at this text. -/
  | noIri (rest : String)
  /-- An IRI is not closed. -/
  | openIri
  /-- The label of a blank node is empty. -/
  | emptyLabel
  /-- The line ends after a backslash. -/
  | danglingEscape
  /-- An escape that stands for no character. -/
  | badUnicode (letter : Char) (digits : String)
  /-- No escape is written with this letter. -/
  | unknownEscape (letter : Char)
  /-- A literal is not closed. -/
  | openLiteral
  /-- The statement is not closed by a dot. -/
  | noDot
  /-- Something follows the statement. -/
  | trailing (rest : String)
deriving DecidableEq, Repr

/-- The wording of a problem. -/
def Problem.message : Problem → String
  | .noIri rest => "expected IRI at '" ++ rest ++ "'"
  | .openIri => "unterminated IRI"
  | .emptyLabel => "empty blank node label"
  | .danglingEscape => "dangling escape in literal"
  | .badUnicode letter digits =>
    "invalid unicode escape '\\" ++ letter.toString ++ digits ++ "'"
  | .unknownEscape letter => "unknown escape '\\" ++ letter.toString ++ "'"
  | .openLiteral => "unterminated literal"
  | .noDot => "expected '.' at end of statement"
  | .trailing rest => "unexpected trailing text '" ++ rest ++ "'"

/-- The first line that is no statement, and what is wrong with it. -/
structure Fault where
  /-- The number of the line, the first being 1. -/
  line : Nat
  /-- What is wrong. -/
  problem : Problem
deriving DecidableEq, Repr

/-- The wording of a fault. -/
def Fault.message (f : Fault) : String :=
  "line " ++ toString f.line ++ ": " ++ f.problem.message

/-- An IRI in angle brackets. -/
def readIri : List Char → Except Problem (String × List Char)
  | '<' :: rest =>
    match cutAt? '>' rest with
    | some (iri, rest) => .ok (String.ofList iri, rest)
    | none => .error .openIri
  | rest => .error (.noIri (String.ofList rest))

/-- An IRI, or a blank node, whose label ends at a blank. -/
def readNode : List Char → Except Problem (Term × List Char)
  | '_' :: ':' :: rest =>
    let label := rest.takeWhile (! isBlank ·)
    if label = [] then .error .emptyLabel
    else .ok (.blank (String.ofList label), rest.dropWhile (! isBlank ·))
  | rest => (readIri rest).map fun (iri, rest) => (.iri iri, rest)

/-- The character that an escape of one letter stands for. -/
def shortEscape? : Char → Option Char
  | 't' => some '\t'
  | 'b' => some '\x08'
  | 'n' => some '\n'
  | 'r' => some '\r'
  | 'f' => some '\x0c'
  | '"' => some '"'
  | '\'' => some '\''
  | '\\' => some '\\'
  | _ => none

/-- The number written in hexadecimal digits, of which there must be one. A
    plus sign may stand before them. -/
def hexNumber? (digits : List Char) : Option Nat :=
  let unsigned := match digits with
    | '+' :: rest => rest
    | digits => digits
  number? 16 unsigned

/-- The character that an escape by code point stands for: its digits have to
    take `width` bytes. -/
def unicodeEscape? (width : Nat) (digits : List Char) : Option Char :=
  if utf8Size digits = width then (hexNumber? digits).bind charOf? else none

/-- The characters of a literal up to the closing quote, and what follows
    that. -/
def readQuoted : List Char → Except Problem (List Char × List Char)
  | [] => .error .openLiteral
  | '"' :: rest => .ok ([], rest)
  | ['\\'] => .error .danglingEscape
  | '\\' :: letter :: rest =>
    if letter = 'u' ∨ letter = 'U' then
      let width := if letter = 'u' then 4 else 8
      let digits := rest.take width
      match unicodeEscape? width digits with
      | some c => (readQuoted (rest.drop width)).map fun (value, rest) => (c :: value, rest)
      | none => .error (.badUnicode letter (String.ofList digits))
    else
      match shortEscape? letter with
      | some c => (readQuoted rest).map fun (value, rest) => (c :: value, rest)
      | none => .error (.unknownEscape letter)
  | c :: rest => (readQuoted rest).map fun (value, rest) => (c :: value, rest)
termination_by cs => cs.length
decreasing_by all_goals simp <;> omega

/-- Whether a character may stand in the name of a language. -/
def isTagChar (c : Char) : Bool :=
  c.isAlphanum || c = '-'

/-- What follows the closing quote of a literal: a datatype after `^^`, a
    language after `@`, or neither. -/
def readTag : List Char → Except Problem ((Option String × Option String) × List Char)
  | '^' :: '^' :: rest => (readIri rest).map fun (iri, rest) => ((some iri, none), rest)
  | '@' :: rest =>
    .ok ((none, some (String.ofList (rest.takeWhile isTagChar))), rest.dropWhile isTagChar)
  | rest => .ok ((none, none), rest)

/-- A literal, an IRI or a blank node. -/
def readObject : List Char → Except Problem (Term × List Char)
  | '"' :: rest => do
    let (value, rest) ← readQuoted rest
    let ((datatype, language), rest) ← readTag rest
    return (.literal (String.ofList value) datatype language, rest)
  | rest => readNode rest

/-- A statement. -/
def readTriple (text : List Char) : Except Problem Triple := do
  let (subject, rest) ← readNode text
  let (predicate, rest) ← readIri (trimStart rest)
  let (object, rest) ← readObject (trimStart rest)
  match trimStart rest with
  | '.' :: rest =>
    let rest := trimStart rest
    if rest = [] ∨ rest.head? = some '#' then return { subject, predicate, object }
    else throw (.trailing (String.ofList rest))
  | _ => throw .noDot

/-- The statement on a line, if it holds one. -/
def readLine (line : List Char) : Except Problem (Option Triple) :=
  let line := trim line
  if line = [] ∨ line.head? = some '#' then .ok none
  else (readTriple line).map some

/-- The statements on lines, of which the first has number `number`. -/
def readLines : (number : Nat) → List (List Char) → Except Fault (List Triple)
  | _, [] => .ok []
  | number, line :: lines =>
    match readLine line with
    | .error problem => .error { line := number, problem }
    | .ok none => readLines (number + 1) lines
    | .ok (some t) => (readLines (number + 1) lines).map (t :: ·)

/-- The graph that a document holds, or its first line that is no statement. -/
def parse (document : String) : Except Fault Graph :=
  (readLines 1 (lines document.toList)).map Graph.ofTriples

end NTriples

end PaperGraph
