/-!
# Tokens

What a YAML text consists of. The structure of block collections, which the
text shows by indentation, is told by tokens of its own.
-/

namespace PaperGraph.Yaml

/-- How a scalar is written. -/
inductive Style where
  /-- Without quotes. -/
  | plain
  /-- In quotes. -/
  | quoted
  /-- As a block that keeps its lines. -/
  | literal
  /-- As a block that is folded. -/
  | folded
deriving DecidableEq, Repr, Inhabited

/-- A part of a YAML text. -/
inductive Token where
  /-- A directive for the version of YAML. -/
  | version (major minor : Nat)
  /-- A directive for a handle of tags. -/
  | handle (handle expansion : String)
  /-- The mark for the start of a document. -/
  | documentStart
  /-- The mark for the end of a document. -/
  | documentEnd
  /-- The start of a block sequence. -/
  | blockSequence
  /-- The start of a block mapping. -/
  | blockMapping
  /-- The end of a block collection. -/
  | blockEnd
  /-- An opening bracket. -/
  | flowSequence
  /-- A closing bracket. -/
  | flowSequenceEnd
  /-- An opening brace. -/
  | flowMapping
  /-- A closing brace. -/
  | flowMappingEnd
  /-- A comma in a flow collection. -/
  | flowEntry
  /-- A dash before an entry of a block sequence. -/
  | blockEntry
  /-- What comes next is a key. -/
  | key
  /-- What comes next is a value. -/
  | value
  /-- A reference to an anchor. -/
  | reference (name : String)
  /-- The name of the node that comes next. -/
  | anchor (name : String)
  /-- The tag of the node that comes next: a handle and the rest. -/
  | tag (handle suffix : String)
  /-- A scalar. -/
  | scalar (text : String) (style : Style)
deriving DecidableEq, Repr, Inhabited

end PaperGraph.Yaml
