import PaperGraph.Yaml.Token

/-!
# Nodes

A document holds a node: a scalar, a sequence of nodes, or a mapping, which
pairs nodes. Where a reference stands, the document holds a node once more that
was given a name before.

* `Document.resolve`: the node that a reference stands for;
* `document?`: the document that some tokens denote, if there is exactly one.
-/

namespace PaperGraph.Yaml

/-- What a document holds. -/
inductive Node where
  /-- A text, how it is written, and its tag if it has one. -/
  | scalar (text : String) (style : Style) (tag : Option String)
  /-- Nodes one after the other. -/
  | sequence (items : List Node)
  /-- Keys with their values. -/
  | mapping (entries : List (Node × Node))
  /-- The node with an anchor of that number. -/
  | reference (number : Nat)
deriving Inhabited

/-- The node where nothing is written. -/
def Node.empty (tag : Option String := none) : Node :=
  .scalar "" .plain tag

/-- A node with an anchor. -/
structure Anchored where
  /-- The number of anchors before it. -/
  place : Nat
  /-- The number that references use for it. -/
  number : Nat
  /-- The node. -/
  node : Node

/-- The names of the anchors so far, and their nodes as far as they are
    complete. -/
structure Anchors where
  /-- The names, with the numbers that stand for them. -/
  numbers : List (String × Nat) := []
  /-- The number of anchors. -/
  count : Nat := 0
  /-- The complete nodes. -/
  complete : List Anchored := []

/-- The anchors with one more name, whose number is that of the different names
    before it. A name can be given again. -/
def Anchors.name (a : Anchors) (name : String) : Anchors :=
  { a with
    numbers := (name, a.numbers.length) :: a.numbers.filter (·.1 ≠ name)
    count := a.count + 1 }

/-- What a text holds. -/
structure Document where
  /-- The node, if there is a document. -/
  root : Option Node
  /-- The nodes with anchors. -/
  anchored : List Anchored

/-- A node, or the one that it refers to: of the nodes with that number the one
    that was named last. -/
def Document.resolve (d : Document) : Node → Node
  | .reference number =>
    match (d.anchored.filter (·.number = number)).mergeSort fun a b => b.place ≤ a.place with
    | a :: _ => a.node
    | [] => .empty
  | node => node

/-- What is left of the tokens, and the anchors so far. -/
structure Reader where
  /-- The tokens left. -/
  tokens : List Token
  /-- The anchors. -/
  anchors : Anchors := {}

/-- Reading from tokens, which can fail. -/
abbrev Read := StateT Reader Option

namespace Read

/-- The next token. -/
def peek : Read (Option Token) :=
  return (← get).tokens.head?

/-- Goes on to the token after the next. -/
def skip : Read Unit :=
  modify fun r => { r with tokens := r.tokens.drop 1 }

/-- Goes on to the token after the next, if that is `t`. -/
def skipOver (t : Token) : Read Bool := do
  if (← peek) = some t then
    skip
    return true
  else return false

/-- Fails unless the next token is `t`, and goes on to the one after it. -/
def expect (t : Token) : Read Unit := do
  if ¬ (← skipOver t) then failure

/-- Whether one of some tokens is next. -/
def nextIn (ts : List Token) : Read Bool := do
  let next ← peek
  return ts.any fun t => some t = next

/-- The name of an anchor, if one is next. -/
def anchor? : Read (Option String) := do
  match ← peek with
  | some (.anchor name) =>
    skip
    return some name
  | _ => return none

/-- A tag, if one is next, its handle replaced by what it stands for. -/
def tag? (handles : List (String × String)) : Read (Option String) := do
  match ← peek with
  | some (.tag "" suffix) =>
    skip
    return some suffix
  | some (.tag handle suffix) =>
    skip
    match handles.lookup handle with
    | some expansion => return some (expansion ++ suffix)
    | none => failure
  | _ => return none

/-- An anchor and a tag, in any order. -/
def properties (handles : List (String × String)) : Read (Option String × Option String) := do
  match ← anchor? with
  | some name => return (some name, ← tag? handles)
  | none =>
    let tag ← tag? handles
    if tag.isSome then return (← anchor?, tag) else return (none, none)

/-- Gives what is read by `read` a name, if it has one. -/
def named (name : Option String) (read : Read Node) : Read Node := do
  match name with
  | none => read
  | some name =>
    let before := (← get).anchors
    modify fun r => { r with anchors := r.anchors.name name }
    let node ← read
    let anchored : Anchored := { place := before.count, number := before.numbers.length, node }
    modify fun r =>
      { r with anchors := { r.anchors with complete := anchored :: r.anchors.complete } }
    return node

/-- A reference to a name, which has been given before. -/
def reference (name : String) : Read Node := do
  match (← get).anchors.numbers.lookup name with
  | some number => return .reference number
  | none => failure

/-- The tag of a scalar. An exclamation mark alone says nothing. -/
def scalarTag (tag : Option String) : Option String :=
  tag.filter (· ≠ "!")

mutual

/-- A node. Block collections are allowed where `block` says so, and where
    `indentless` says so, the entries of a sequence can stand without one.
    `fuel` bounds the number of tokens and of nodes. -/
def node (handles : List (String × String)) (block indentless : Bool) : (fuel : Nat) → Read Node
  | 0 => failure
  | fuel + 1 => do
    match ← peek with
    | some (.reference name) =>
      skip
      reference name
    | _ =>
      let (name, tag) ← properties handles
      named name do
        match ← peek with
        | some (.scalar text style) =>
          skip
          return .scalar text style (scalarTag tag)
        | some .flowSequence =>
          skip
          return .sequence (← flowItems handles true fuel)
        | some .flowMapping =>
          skip
          return .mapping (← flowEntries handles true fuel)
        | next =>
          if indentless ∧ next = some .blockEntry then
            return .sequence (← indentlessItems handles fuel)
          else if block ∧ next = some .blockSequence then
            skip
            return .sequence (← blockItems handles fuel)
          else if block ∧ next = some .blockMapping then
            skip
            return .mapping (← blockEntries handles fuel)
          else if name.isSome ∨ tag.isSome then return .empty tag
          else failure

/-- The entries of a block sequence. -/
def blockItems (handles : List (String × String)) : (fuel : Nat) → Read (List Node)
  | 0 => failure
  | fuel + 1 => do
    if ← skipOver .blockEnd then return []
    expect .blockEntry
    let item ←
      if ← nextIn [.blockEntry, .blockEnd] then pure .empty else node handles true false fuel
    return item :: (← blockItems handles fuel)

/-- The entries of a sequence in a mapping that are indented like its keys. -/
def indentlessItems (handles : List (String × String)) : (fuel : Nat) → Read (List Node)
  | 0 => failure
  | fuel + 1 => do
    if ¬ (← skipOver .blockEntry) then return []
    let item ←
      if ← nextIn [.blockEntry, .key, .value, .blockEnd] then pure .empty
      else node handles true false fuel
    return item :: (← indentlessItems handles fuel)

/-- The keys and values of a block mapping. -/
def blockEntries (handles : List (String × String)) : (fuel : Nat) → Read (List (Node × Node))
  | 0 => failure
  | fuel + 1 => do
    if ← skipOver .blockEnd then return []
    expect .key
    let key ←
      if ← nextIn [.key, .value, .blockEnd] then pure .empty else node handles true true fuel
    let value ←
      if ← skipOver .value then
        if ← nextIn [.key, .value, .blockEnd] then pure .empty else node handles true true fuel
      else pure .empty
    return (key, value) :: (← blockEntries handles fuel)

/-- The items of a flow sequence, separated by commas. A key makes a mapping
    with a single entry; where that key is empty, the token after it is passed
    over. -/
def flowItems (handles : List (String × String)) (first : Bool) :
    (fuel : Nat) → Read (List Node)
  | 0 => failure
  | fuel + 1 => do
    if ← skipOver .flowSequenceEnd then return []
    if ¬ first then
      expect .flowEntry
      if ← skipOver .flowSequenceEnd then return []
    let item ←
      if ← skipOver .key then
        let key ←
          if ← nextIn [.value, .flowEntry, .flowSequenceEnd] then
            skip
            pure .empty
          else node handles false false fuel
        let value ←
          if ← skipOver .value then
            if ← nextIn [.flowEntry, .flowSequenceEnd] then pure .empty
            else node handles false false fuel
          else pure .empty
        pure (.mapping [(key, value)])
      else node handles false false fuel
    return item :: (← flowItems handles false fuel)

/-- The keys and values of a flow mapping, separated by commas. -/
def flowEntries (handles : List (String × String)) (first : Bool) :
    (fuel : Nat) → Read (List (Node × Node))
  | 0 => failure
  | fuel + 1 => do
    if ← skipOver .flowMappingEnd then return []
    if ¬ first then
      expect .flowEntry
      if ← skipOver .flowMappingEnd then return []
    let entry ←
      if ← skipOver .key then
        let key ←
          if ← nextIn [.value, .flowEntry, .flowMappingEnd] then pure .empty
          else node handles false false fuel
        let value ←
          if ← skipOver .value then
            if ← nextIn [.flowEntry, .flowMappingEnd] then pure .empty
            else node handles false false fuel
          else pure .empty
        pure (key, value)
      else pure (← node handles false false fuel, .empty)
    return entry :: (← flowEntries handles false fuel)

end

/-- The handles of tags that need no directive. -/
def standardHandles : List (String × String) :=
  [("!", "!"), ("!!", "tag:yaml.org,2002:")]

/-- The directives before a document: the handles they declare, and what is
    left. No handle is declared twice, and there is one version at most. -/
def directives? (versioned : Bool) (handles : List (String × String)) :
    List Token → Option (List (String × String) × List Token)
  | .version major minor :: rest =>
    if versioned ∨ major ≠ 1 ∨ (minor ≠ 1 ∧ minor ≠ 2) then none
    else directives? true handles rest
  | .handle handle expansion :: rest =>
    if (handles.lookup handle).isSome then none
    else directives? versioned ((handle, expansion) :: handles) rest
  | rest => some (handles ++ standardHandles, rest)

/-- Whether a token stands between documents. -/
def isBetweenDocuments : Token → Bool
  | .version .. => true
  | .handle .. => true
  | .documentStart => true
  | .documentEnd => true
  | _ => false

/-- The node of a document with its directives. -/
def documentNode : Read Node := do
  let tokens := (← get).tokens
  let fuel := 2 * tokens.length + 2
  match ← peek with
  | some first =>
    if isBetweenDocuments first ∧ first ≠ .documentEnd then
      match directives? false [] tokens with
      | some (handles, .documentStart :: rest) =>
        modify fun r => { r with tokens := rest }
        if rest.head?.all isBetweenDocuments then return .empty
        else node handles true false fuel
      | _ => failure
    else node standardHandles true false fuel
  | none => failure

end Read

/-- The document that some tokens denote. It can be missing, but there must not
    be more than one. -/
def document? : List Token → Option Document
  | [] => some { root := none, anchored := [] }
  | tokens =>
    match Read.documentNode.run { tokens } with
    | none => none
    | some (root, left) =>
      if left.tokens.all (· = .documentEnd) then
        some { root := some root, anchored := left.anchors.complete }
      else none

end PaperGraph.Yaml
