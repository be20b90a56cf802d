import PaperGraph.Files.Path
import PaperGraph.Text.Search

/-!
# Excluded paths

A manifest lists patterns of paths that are no part of the project. A pattern
has one of four forms:

* `**/d/*` or `d/*`: all that lies below a directory `d`, wherever that is;
* `**/t`: a path that ends in `t`, or goes on with a separator after it;
* `*t`, without a separator: a path that ends in `t`;
* any other text: a path in which it occurs.
-/

namespace PaperGraph

open Text

/-- A pattern of excluded paths. -/
inductive Pattern where
  /-- All below a directory. -/
  | below (directory : List Char)
  /-- The end of a path or of its start up to a separator. -/
  | passing (tail : List Char)
  /-- The end of a path. -/
  | ending (tail : List Char)
  /-- A part of a path. -/
  | within (part : List Char)
deriving DecidableEq, Repr

namespace Pattern

/-- The pattern that a text denotes. -/
def ofText (text : List Char) : Pattern :=
  match stripStart? ['*', '*', '/'] text with
  | some tail =>
    match stripEnd? ['/', '*'] tail with
    | some directory => .below directory
    | none => .passing tail
  | none =>
    match stripStart? ['*'] text, text.contains '/', stripEnd? ['/', '*'] text with
    | some tail, false, _ => .ending tail
    | _, _, some directory => .below directory
    | _, _, none => .within text

/-- Whether a path is excluded by the pattern. -/
def excludes (path : List Char) : Pattern → Bool
  | .below directory =>
    (directory ++ ['/']).isPrefixOf path || occursIn ('/' :: directory ++ ['/']) path
  | .passing tail => (stripEnd? tail path).isSome || occursIn (tail ++ ['/']) path
  | .ending tail => (stripEnd? tail path).isSome
  | .within part => occursIn part path

end Pattern

/-- Whether a path is excluded by one of some patterns. A backslash in the path
    counts as a separator. -/
def Path.isExcluded (p : Path) (patterns : List String) : Bool :=
  let path := p.text.toList.map fun c => if c = '\\' then '/' else c
  patterns.any fun pattern => (Pattern.ofText pattern.toList).excludes path

end PaperGraph
