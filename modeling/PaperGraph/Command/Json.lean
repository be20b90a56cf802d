import PaperGraph.Store.Profile

/-!
# JSON

What is known of an IRI, as JSON for other programs: an item on every line, two
more blanks at the start of a line for every level, and no blanks but these and
one after every colon.
-/

namespace PaperGraph

/-- A value as far as it is needed here. -/
inductive JsonValue where
  /-- Nothing. -/
  | null
  /-- A text. -/
  | string (text : String)
  /-- Values one after the other. -/
  | array (items : List JsonValue)
  /-- Values with names. -/
  | object (fields : List (String × JsonValue))
deriving Inhabited

namespace JsonValue

/-- A hexadecimal digit. -/
def hexDigit (n : Nat) : Char :=
  Nat.digitChar n

/-- A character in quotes. -/
def escapeChar (c : Char) : List Char :=
  match c with
  | '"' => ['\\', '"']
  | '\\' => ['\\', '\\']
  | '\x08' => ['\\', 'b']
  | '\x0c' => ['\\', 'f']
  | '\n' => ['\\', 'n']
  | '\r' => ['\\', 'r']
  | '\t' => ['\\', 't']
  | c =>
    if c.toNat < 0x20 then ['\\', 'u', '0', '0', hexDigit (c.toNat / 16), hexDigit (c.toNat % 16)]
    else [c]

/-- A text in quotes. -/
def quote (text : String) : String :=
  "\"" ++ String.ofList (text.toList.flatMap escapeChar) ++ "\""

/-- The start of a line at a level. -/
def indent (level : Nat) : String :=
  String.ofList (List.replicate (2 * level) ' ')

/-- Items on a line each, between an opening and a closing mark. -/
def between (opening closing : String) (level : Nat) (items : List String) : String :=
  if items = [] then opening ++ closing
  else opening ++ "\n" ++ ",\n".intercalate (items.map (indent (level + 1) ++ ·)) ++ "\n" ++
    indent level ++ closing

/-- A value as a text, on a line of some level. -/
def write (level : Nat) : JsonValue → String
  | .null => "null"
  | .string text => quote text
  | .array items => between "[" "]" level (items.attach.map fun ⟨v, _⟩ => v.write (level + 1))
  | .object fields =>
    between "\x7b" "\x7d" level
      (fields.attach.map fun ⟨(name, v), _⟩ => quote name ++ ": " ++ v.write (level + 1))
termination_by v => sizeOf v
decreasing_by
  · simp_wf
    have := List.sizeOf_lt_of_mem ‹_›
    omega
  · simp_wf
    have := List.sizeOf_lt_of_mem ‹_›
    simp only [Prod.mk.sizeOf_spec] at this
    omega

/-- A text, if there is one. -/
def ofOption : Option String → JsonValue
  | some text => .string text
  | none => .null

end JsonValue

/-- An inspection as JSON. -/
def Inspection.json (i : Inspection) : JsonValue :=
  .object
    [("iri", .string i.iri), ("contribution_type", .ofOption (i.kind.map Kind.name)),
      ("values", .array (i.facts.map fun (p, o) => .array [.string p, .string o])),
      ("missing", .array (i.missing.map .string)),
      ("error", .ofOption (i.fault.map ResolveFault.message))]

end PaperGraph
